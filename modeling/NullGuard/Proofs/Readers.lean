import NullGuard.Proofs.FormLanguage

/-!
# What readers do

`reader.Meets post` says of a reader that it never goes past the end of a statement: either it takes
tokens and gives a value for which `post` holds, or it fails at a place that it reached. The rules
for the combinators of readers follow the way readers are put together, so that what is left to show
of a reader is what holds of the value that it returns.
-/

namespace NullGuard

variable {α β : Type}

namespace Parse

/-- What holds of the tokens that a reader takes from a cursor on and of the value that it gives. -/
def MeetsAt (reader : Parse α) (c : Cursor) (post : List Token → α → Prop) : Prop :=
  match reader c with
  | .ok (a, d) => ∃ taken, c.Passes taken d ∧
      (∀ token ∈ taken, token.kind.endsStatement = false) ∧ post taken a
  | .error failure => c.Reaches failure.place ∧ failure.expected ≠ .statementEnd

def Meets (reader : Parse α) (post : List Token → α → Prop) : Prop :=
  ∀ c, reader.MeetsAt c post

/-- The reader gives a phrase that the form builds, of the tokens that it takes. -/
def Makes (reader : Parse Phrase) (form : Form) : Prop :=
  reader.Meets fun taken p => taken = p.tokens ∧ Builds form [p]

def MakesAll (reader : Parse (List Phrase)) (form : Form) : Prop :=
  reader.Meets fun taken ps => taken = Phrase.tokensAll ps ∧ Builds form ps

lemma bind_of_ok {x : Parse α} {f : α → Parse β} {c d : Cursor} {a : α} (h : x c = .ok (a, d)) :
    (x >>= f) c = f a d := by
  simp only [Bind.bind, StateT.bind, h, Except.bind]

lemma bind_of_error {x : Parse α} {f : α → Parse β} {c : Cursor} {failure : Failure}
    (h : x c = .error failure) : (x >>= f) c = .error failure := by
  simp only [Bind.bind, StateT.bind, h, Except.bind]

/-- Two readers one behind the other read what the second reads from where the first stopped. -/
lemma bind_eq_ok_iff {x : Parse α} {f : α → Parse β} {c e : Cursor} {b : β} :
    (x >>= f) c = .ok (b, e) ↔ ∃ a d, x c = .ok (a, d) ∧ f a d = .ok (b, e) := by
  cases hx : x c with
  | error failure => simp [bind_of_error hx]
  | ok result =>
    obtain ⟨a, d⟩ := result
    simp [bind_of_ok hx]

lemma bind_eq_error_iff {x : Parse α} {f : α → Parse β} {c : Cursor} {failure : Failure} :
    (x >>= f) c = .error failure ↔
      x c = .error failure ∨ ∃ a d, x c = .ok (a, d) ∧ f a d = .error failure := by
  cases hx : x c with
  | error failure => simp [bind_of_error hx]
  | ok result =>
    obtain ⟨a, d⟩ := result
    simp [bind_of_ok hx]

section Rules

variable {x : Parse α} {c : Cursor} {post : List Token → α → Prop}

lemma Meets.of_ok (h : x.Meets post) {a : α} {d : Cursor} (hx : x c = .ok (a, d)) :
    ∃ taken, c.Passes taken d ∧ (∀ token ∈ taken, token.kind.endsStatement = false) ∧
      post taken a := by
  have hc := h c
  rwa [MeetsAt, hx] at hc

lemma MeetsAt.mono {post' : List Token → α → Prop} (h : x.MeetsAt c post)
    (hpost : ∀ taken a, post taken a → post' taken a) : x.MeetsAt c post' := by
  simp only [MeetsAt] at h ⊢
  cases hx : x c with
  | error failure => simpa only [hx] using h
  | ok result =>
    simp only [hx] at h ⊢
    obtain ⟨taken, hpass, hin, hp⟩ := h
    exact ⟨taken, hpass, hin, hpost _ _ hp⟩

lemma MeetsAt.bind {f : α → Parse β} {post' : List Token → β → Prop} (hx : x.MeetsAt c post)
    (hf : ∀ taken a, post taken a → (f a).Meets fun more b => post' (taken ++ more) b) :
    (x >>= f).MeetsAt c post' := by
  simp only [MeetsAt] at hx ⊢
  cases hxc : x c with
  | error failure =>
    rw [bind_of_error hxc]
    simpa only [hxc] using hx
  | ok result =>
    obtain ⟨a, d⟩ := result
    simp only [hxc] at hx
    obtain ⟨taken, hpass, hin, hp⟩ := hx
    rw [bind_of_ok hxc]
    have hd := hf taken a hp d
    simp only [MeetsAt] at hd
    cases hfd : f a d with
    | error failure =>
      simp only [hfd] at hd ⊢
      exact ⟨.trans ⟨taken, hpass, hin⟩ hd.1, hd.2⟩
    | ok result =>
      obtain ⟨b, e⟩ := result
      simp only [hfd] at hd ⊢
      obtain ⟨more, hpass', hin', hp'⟩ := hd
      refine ⟨taken ++ more, hpass.trans hpass', ?_, hp'⟩
      intro token htoken
      rcases List.mem_append.mp htoken with htoken | htoken
      · exact hin token htoken
      · exact hin' token htoken

lemma Meets.mono {post' : List Token → α → Prop} (h : x.Meets post)
    (hpost : ∀ taken a, post taken a → post' taken a) : x.Meets post' := fun c => (h c).mono hpost

lemma Meets.bind {f : α → Parse β} {post' : List Token → β → Prop} (hx : x.Meets post)
    (hf : ∀ taken a, post taken a → (f a).Meets fun more b => post' (taken ++ more) b) :
    (x >>= f).Meets post' := fun c => (hx c).bind hf

lemma Meets.pure {a : α} (h : post [] a) : (pure a : Parse α).Meets post := by
  intro c
  exact ⟨[], .refl c, by simp, h⟩

lemma Meets.refuse {expected : Expected} (h : expected ≠ .statementEnd) :
    (Parse.refuse expected : Parse α).Meets post := by
  intro c
  exact ⟨.refl c, h⟩

/-- A choice by the tokens ahead is right if each of its branches is right where it is taken. -/
lemma Meets.get_bind_at {f : Cursor → Parse α} (h : ∀ c, (f c).MeetsAt c post) :
    ((get : Parse Cursor) >>= f).Meets post := h

lemma Meets.get_bind {f : Cursor → Parse α} (h : ∀ c, (f c).Meets post) :
    ((get : Parse Cursor) >>= f).Meets post := fun c => h c c

lemma Meets.ite {p : Prop} [Decidable p] {y : Parse α} (hx : x.Meets post) (hy : y.Meets post) :
    (if p then x else y).Meets post := by
  split
  · exact hx
  · exact hy

end Rules

/-- A test of cursors that asks for tokens inside of a statement, of the given class. -/
structure Selects (wanted : Cursor → Bool) (accepts : Token → Bool) : Prop where
  accepts_current : ∀ c, wanted c = true → accepts c.current = true
  inside : ∀ token, accepts token = true → token.kind.endsStatement = false

lemma selects_isAt {kind : TokenKind} (h : kind.endsStatement = false) :
    Selects (·.isAt kind) (·.kind = kind) where
  accepts_current c hc := hc
  inside token htoken := by
    simp only [decide_eq_true_eq] at htoken
    rw [htoken, h]

section Tokens

variable {wanted : Cursor → Bool} {accepts : Token → Bool}

/-- A token is taken, or nothing changes. -/
lemma takeIf_eq (wanted : Cursor → Bool) (c : Cursor) :
    takeIf wanted c = .ok (none, c) ∨
      takeIf wanted c = .ok (some c.current, c.advance) ∧ wanted c = true ∧ c.following ≠ [] := by
  obtain ⟨n, current, following⟩ := c
  cases following with
  | nil => exact .inl rfl
  | cons next later =>
    cases hwanted : wanted ⟨n, current, next :: later⟩ with
    | false => exact .inl (by simp [takeIf, hwanted])
    | true => exact .inr ⟨by simp [takeIf, hwanted, Cursor.advance], rfl, by simp⟩

lemma takeIf_of_wanted {c : Cursor} (h : wanted c = true) (hne : c.following ≠ []) :
    takeIf wanted c = .ok (some c.current, c.advance) := by
  obtain ⟨n, current, following⟩ := c
  cases following with
  | nil => exact absurd rfl hne
  | cons next later => simp only [takeIf, h, if_true, Cursor.advance]

lemma takeIf_of_not_wanted {c : Cursor} (h : wanted c = false) :
    takeIf wanted c = .ok (none, c) := by
  rcases takeIf_eq wanted c with hnone | ⟨_, hwanted, _⟩
  · exact hnone
  · rw [h] at hwanted
    cases hwanted

lemma require_of_not_wanted {c : Cursor} {expected : Expected} (h : wanted c = false) :
    require wanted expected c = .error ⟨expected, c⟩ := by
  rw [require, bind_of_ok (takeIf_of_not_wanted h)]
  rfl

lemma manyLedWithin_of_not_wanted {c : Cursor} {item : Token → Parse α} (h : wanted c = false)
    (ahead : List Token) : manyLedWithin wanted item ahead c = .ok ([], c) := by
  cases ahead with
  | nil => rfl
  | cons mark ahead =>
    rw [manyLedWithin, bind_of_ok (takeIf_of_not_wanted h)]
    rfl

/-- The only token that can be taken is the current one. -/
lemma takeIf_meetsAt (h : Selects wanted accepts) (c : Cursor) :
    (takeIf wanted).MeetsAt c fun taken found =>
      match found with
      | none => taken = []
      | some token => taken = [token] ∧ token = c.current ∧ accepts token = true := by
  unfold MeetsAt
  rcases takeIf_eq wanted c with hnone | ⟨hsome, hwanted, hne⟩
  · simp only [hnone]
    exact ⟨[], .refl c, by simp, rfl⟩
  · have haccepts := h.accepts_current c hwanted
    simp only [hsome]
    exact ⟨[c.current], Cursor.passes_advance hne, by simpa using h.inside _ haccepts, rfl, trivial,
      haccepts⟩

lemma takeIf_meets (h : Selects wanted accepts) :
    (takeIf wanted).Meets fun taken found =>
      match found with
      | none => taken = []
      | some token => taken = [token] ∧ accepts token = true := by
  intro c
  refine (takeIf_meetsAt h c).mono fun taken found hfound => ?_
  cases found with
  | none => exact hfound
  | some token => exact ⟨hfound.1, hfound.2.2⟩

lemma require_meetsAt {expected : Expected} (h : Selects wanted accepts)
    (he : expected ≠ .statementEnd) (c : Cursor) :
    (require wanted expected).MeetsAt c fun taken p =>
      taken = p.tokens ∧ p = .leaf c.current ∧ accepts c.current = true := by
  refine (takeIf_meetsAt h c).bind fun taken found hfound => ?_
  cases found with
  | none => exact .refuse he
  | some token =>
    obtain ⟨rfl, rfl, ha⟩ := hfound
    exact .pure ⟨rfl, rfl, ha⟩

lemma require_makes {expected : Expected} (h : Selects wanted accepts)
    (he : expected ≠ .statementEnd) : (require wanted expected).Makes (.token accepts) := by
  intro c
  refine (require_meetsAt h he c).mono fun taken p hp => ⟨hp.1, ?_⟩
  rw [hp.2.1]
  exact .token hp.2.2

lemma expectAs_makes {kind : TokenKind} {expected : Expected} (h : kind.endsStatement = false)
    (he : expected ≠ .statementEnd) : (expectAs kind expected).Makes (.tok kind) :=
  require_makes (selects_isAt h) he

lemma expect_makes {kind : TokenKind} (h : kind.endsStatement = false) :
    (expect kind).Makes (.tok kind) := expectAs_makes h (by simp)

lemma keyword_makes (word : Keyword) : (keyword word).Makes (.word word) := expect_makes rfl

lemma optional_makes (h : Selects wanted accepts) :
    (optional wanted).MakesAll (.opt (.token accepts)) := by
  refine (takeIf_meets h).bind fun taken found hfound => ?_
  cases found with
  | none => exact .pure ⟨by simp [hfound], .first .empty⟩
  | some token => exact .pure ⟨by simp [hfound.1], .second (.token hfound.2)⟩

lemma optionalLed_makes {item : Token → Parse (List Phrase)} {form : Form}
    (h : Selects wanted accepts)
    (hitem : ∀ mark, accepts mark = true →
      (item mark).Meets fun taken ps => mark :: taken = Phrase.tokensAll ps ∧ Builds form ps) :
    (optionalLed wanted item).MakesAll (.opt form) := by
  refine (takeIf_meets h).bind fun taken found hfound => ?_
  cases found with
  | none => exact .pure ⟨by simp [hfound], .first .empty⟩
  | some mark =>
    refine (hitem mark hfound.2).mono fun more ps hps => ?_
    rw [hfound.1, List.singleton_append]
    exact ⟨hps.1, .second hps.2⟩

lemma manyLedWithin_meets {item : Token → Parse α} (view : α → List Token) (holds : α → Prop)
    (h : Selects wanted accepts)
    (hitem : ∀ mark, accepts mark = true →
      (item mark).Meets fun taken a => mark :: taken = view a ∧ holds a) (ahead : List Token) :
    (manyLedWithin wanted item ahead).Meets fun taken as =>
      taken = as.flatMap view ∧ ∀ a ∈ as, holds a := by
  induction ahead with
  | nil => exact .pure ⟨rfl, by simp⟩
  | cons _ ahead ih =>
    refine (takeIf_meets h).bind fun taken found hfound => ?_
    cases found with
    | none => exact .pure ⟨by simpa using hfound, by simp⟩
    | some mark =>
      refine (hitem mark hfound.2).bind fun first a ha => ih.bind fun rest as has => .pure ⟨?_, ?_⟩
      · simp [hfound.1, ← ha.1, has.1]
      · exact List.forall_mem_cons.mpr ⟨ha.2, has.2⟩

/-- What a loop gives: items that hold what is said of one, of the tokens of all of them. -/
lemma manyLed_meets {item : Token → Parse α} (view : α → List Token) (holds : α → Prop)
    (h : Selects wanted accepts)
    (hitem : ∀ mark, accepts mark = true →
      (item mark).Meets fun taken a => mark :: taken = view a ∧ holds a) :
    (manyLed wanted item).Meets fun taken as => taken = as.flatMap view ∧ ∀ a ∈ as, holds a :=
  .get_bind fun c => manyLedWithin_meets view holds h hitem c.following

end Tokens

section Sequences

variable {item : Parse (List Phrase)} {form : Form}

lemma one_makes {item : Parse Phrase} (h : item.Makes form) : (one item).MakesAll form :=
  h.bind fun _ p hp => .pure ⟨by simp [hp.1], hp.2⟩

lemma manyBehind_makes {kind : TokenKind} (h : item.MakesAll form)
    (hkind : kind.endsStatement = false) :
    (manyBehind kind item).MakesAll (.many (.tok kind ++ form)) := by
  have hloop := manyLed_meets Phrase.tokensAll (Builds (.tok kind ++ form)) (selects_isAt hkind)
    fun mark hmark => h.bind fun taken ps hps =>
      Meets.pure ⟨show mark :: (taken ++ []) = Phrase.tokensAll (.leaf mark :: ps) by simp [hps.1],
        Builds.seq (.token hmark) hps.2⟩
  refine hloop.bind fun taken parts hparts => .pure ⟨?_, .many parts hparts.2⟩
  rw [List.append_nil, hparts.1, Phrase.tokensAll_flatten]

lemma commaSeparated_makes (h : item.MakesAll form) :
    (commaSeparated item).MakesAll (.list form) :=
  h.bind fun _ first hfirst => (manyBehind_makes h rfl).bind fun _ more hmore =>
    .pure ⟨by simp [hfirst.1, hmore.1], .seq hfirst.2 hmore.2⟩

end Sequences

end Parse

end NullGuard
