import NullGuard.Proofs.FirstTokens
import NullGuard.Proofs.Readers

/-!
# Reading back

`reader.Gives tokens stop a` says that wherever these tokens lie ahead, with a cursor behind them for
which `stop` holds, the reader gives `a` and takes exactly these tokens. What a reader must not see
behind its tokens depends on how it could go on, so `stop` grows with the readers.
-/

namespace NullGuard

variable {α β : Type}

namespace Parse

/-- The reader gives the value wherever the tokens lie ahead, if it is right to stop behind them. -/
def Gives (reader : Parse α) (tokens : List Token) (stop : Cursor → Prop) (a : α) : Prop :=
  ∀ c d, c.Passes tokens d → stop d → reader c = .ok (a, d)

/-- The reader gives all phrases of a form, up to a bound on their tokens. -/
def Reads (reader : Parse Phrase) (form : Form) (bound : Nat) (stop : Cursor → Prop) : Prop :=
  ∀ p, Builds form [p] → p.tokens.length ≤ bound → reader.Gives p.tokens stop p

def ReadsAll (reader : Parse (List Phrase)) (form : Form) (bound : Nat) (stop : Cursor → Prop) :
    Prop :=
  ∀ ps, Builds form ps → (Phrase.tokensAll ps).length ≤ bound →
    reader.Gives (Phrase.tokensAll ps) stop ps

/-- Where tokens lie ahead with a right stop behind them, it is right to stop already. -/
def Follows (tokens : List Token) (stop stop' : Cursor → Prop) : Prop :=
  ∀ c d, c.Passes tokens d → stop d → stop' c

section Rules

variable {x : Parse α} {f : α → Parse β} {a : α} {b : β} {v w : List Token}
  {stop stop' : Cursor → Prop}

lemma Gives.mono (h : x.Gives v stop a) (hstop : ∀ d, stop' d → stop d) : x.Gives v stop' a :=
  fun c d hpass hd => h c d hpass (hstop d hd)

lemma Gives.cast (h : x.Gives v stop a) (hv : w = v) : x.Gives w stop a := hv ▸ h

lemma Gives.pure : (pure a : Parse α).Gives [] stop a := by
  intro c d hpass _
  obtain rfl := Cursor.passes_nil_iff.mp hpass
  rfl

lemma Gives.bind (hx : x.Gives v stop' a) (hf : (f a).Gives w stop b) (hstop : Follows w stop stop') :
    (x >>= f).Gives (v ++ w) stop b := by
  intro c e hpass he
  obtain ⟨d, hv, hw⟩ := Cursor.passes_append_iff.mp hpass
  rw [bind_of_ok (hx c d hv (hstop d e hw he))]
  exact hf d e hw he

/-- What is returned at last takes nothing more. -/
lemma Gives.map {g : α → β} (hx : x.Gives v stop a) :
    (do let a ← x; return g a : Parse β).Gives v stop (g a) := by
  intro c d hpass hd
  rw [bind_of_ok (hx c d hpass hd)]
  rfl

/-- A choice by the tokens ahead that is made for the first branch. -/
lemma Gives.choose {p : Cursor → Prop} [DecidablePred p] {x y : Cursor → Parse α}
    (hp : ∀ c d, c.Passes v d → stop d → p c)
    (hx : ((get : Parse Cursor) >>= x).Gives v stop a) :
    ((get : Parse Cursor) >>= fun c => if p c then x c else y c).Gives v stop a := by
  intro c d hpass hd
  change (if p c then x c else y c) c = _
  rw [if_pos (hp c d hpass hd)]
  exact hx c d hpass hd

/-- A choice by the tokens ahead that is made against the first branch. -/
lemma Gives.pass {p : Cursor → Prop} [DecidablePred p] {x y : Cursor → Parse α}
    (hp : ∀ c d, c.Passes v d → stop d → ¬ p c)
    (hy : ((get : Parse Cursor) >>= y).Gives v stop a) :
    ((get : Parse Cursor) >>= fun c => if p c then x c else y c).Gives v stop a := by
  intro c d hpass hd
  change (if p c then x c else y c) c = _
  rw [if_neg (hp c d hpass hd)]
  exact hy c d hpass hd

/-- No choice is left. -/
lemma Gives.settle (hx : x.Gives v stop a) : ((get : Parse Cursor) >>= fun _ => x).Gives v stop a :=
  hx

lemma Follows.nil (h : ∀ d, stop d → stop' d) : Follows [] stop stop' := by
  intro c d hpass hd
  obtain rfl := Cursor.passes_nil_iff.mp hpass
  exact h c hd

lemma Follows.cons {token : Token} (h : ∀ c : Cursor, c.kind = token.kind → stop' c) :
    Follows (token :: w) stop stop' := by
  intro c d hpass _
  exact h c hpass.kind

lemma Follows.any : Follows w stop fun _ => True := fun _ _ _ _ => trivial

/-- Phrases that may be missing do not matter, if it is right to stop at their first token. -/
lemma Follows.leads {form : Form} {test : TokenKind → Bool} {ps : List Phrase} (hps : Builds form ps)
    (hform : form.Leads test) (htest : ∀ c : Cursor, test c.kind = true → stop' c)
    (hw : Follows w stop stop') : Follows (Phrase.tokensAll ps ++ w) stop stop' := by
  have hhead := hps.head hform
  cases htokens : Phrase.tokensAll ps with
  | nil => exact hw
  | cons token tokens =>
    rw [htokens] at hhead
    refine .cons fun c hc => htest c ?_
    rw [hc]
    exact hhead token rfl

/-- The same where nothing stands behind them. -/
lemma Follows.leads_last {form : Form} {test : TokenKind → Bool} {ps : List Phrase}
    (hps : Builds form ps) (hform : form.Leads test)
    (htest : ∀ c : Cursor, test c.kind = true → stop' c) (hstop : ∀ d, stop d → stop' d) :
    Follows (Phrase.tokensAll ps) stop stop' := by
  have hfollows := Follows.leads hps hform htest (Follows.nil hstop)
  rwa [List.append_nil] at hfollows

lemma Follows.maybe {form : Form} {kind : TokenKind} {ps : List Phrase} (hps : Builds form ps)
    (hform : form.StartsWith kind) (hkind : ∀ c : Cursor, c.kind = kind → stop' c)
    (hw : Follows w stop stop') : Follows (Phrase.tokensAll ps ++ w) stop stop' :=
  .leads hps hform (fun c hc => hkind c (of_decide_eq_true hc)) hw

lemma Follows.maybe_last {form : Form} {kind : TokenKind} {ps : List Phrase} (hps : Builds form ps)
    (hform : form.StartsWith kind) (hkind : ∀ c : Cursor, c.kind = kind → stop' c)
    (hstop : ∀ d, stop d → stop' d) : Follows (Phrase.tokensAll ps) stop stop' :=
  .leads_last hps hform (fun c hc => hkind c (of_decide_eq_true hc)) hstop

end Rules

section Tokens

variable {wanted : Cursor → Bool} {c : Cursor} {token : Token}

lemma require_gives {expected : Expected} (h : ∀ c : Cursor, c.current = token → wanted c = true) :
    (require wanted expected).Gives [token] (fun _ => True) (.leaf token) := by
  intro c d hpass _
  have htake := takeIf_of_wanted (h c hpass.current) hpass.following_ne_nil
  rw [hpass.current] at htake
  rw [require, bind_of_ok htake, Cursor.passes_nil_iff.mp hpass.advance]
  rfl

lemma expectAs_gives {kind : TokenKind} {expected : Expected} (h : token.kind = kind) :
    (expectAs kind expected).Gives [token] (fun _ => True) (.leaf token) := by
  refine require_gives fun c hc => ?_
  simp only [Cursor.isAt, Cursor.kind, hc, h, decide_true]

lemma expect_gives {kind : TokenKind} (h : token.kind = kind) :
    (expect kind).Gives [token] (fun _ => True) (.leaf token) := expectAs_gives h

lemma keyword_gives {word : Keyword} (h : token.kind = .keyword word) :
    (keyword word).Gives [token] (fun _ => True) (.leaf token) := expect_gives h

lemma optional_reads {accepts : Token → Bool} (bound : Nat)
    (h : ∀ c : Cursor, accepts c.current = true → wanted c = true) :
    (optional wanted).ReadsAll (.opt (.token accepts)) bound (wanted · = false) := by
  intro ps hps _ c d hpass hd
  rcases builds_opt.mp hps with rfl | hps
  · obtain rfl := Cursor.passes_nil_iff.mp hpass
    rw [optional, bind_of_ok (takeIf_of_not_wanted hd)]
    rfl
  · obtain ⟨token, htoken, rfl⟩ := builds_token.mp hps
    have hcurrent : c.current = token := hpass.current
    rw [optional, bind_of_ok (takeIf_of_wanted (h c (by rwa [hcurrent])) hpass.following_ne_nil),
      hcurrent, Cursor.passes_nil_iff.mp hpass.advance]
    rfl

lemma optional_isAt_reads (kind : TokenKind) (bound : Nat) :
    (optional (·.isAt kind)).ReadsAll (.opt (.tok kind)) bound (·.kind ≠ kind) := by
  intro ps hps hlen
  exact (optional_reads bound (fun c hc => hc) ps hps hlen).mono fun d hd => decide_eq_false hd

end Tokens

section Loops

variable {lead : Cursor → Bool} {item : Token → Parse α} {stop : Cursor → Prop}

/-- The reader gives the value of what the tokens are, by the first of them. -/
def Led (lead : Cursor → Bool) (item : Token → Parse α) (stop : Cursor → Prop)
    (tokens : List Token) (a : α) : Prop :=
  ∃ mark body, tokens = mark :: body ∧ (∀ c d, c.Passes tokens d → lead c = true) ∧
    (item mark).Gives body stop a

lemma Led.of_kind {kind : TokenKind} {mark : Token} {tokens body : List Token} {a : α}
    (hmark : mark.kind = kind) (h : (item mark).Gives body stop a) (htokens : tokens = mark :: body) :
    Led (·.isAt kind) item stop tokens a := by
  refine ⟨mark, body, htokens, fun c d hpass => ?_, h⟩
  rw [htokens] at hpass
  simp only [Cursor.isAt, hpass.kind, hmark, decide_true]

lemma Led.take {tokens : List Token} {a : α} (h : Led lead item stop tokens a) {c d : Cursor}
    (hpass : c.Passes tokens d) : ∃ mark, takeIf lead c = .ok (some mark, c.advance) ∧
      (stop d → item mark c.advance = .ok (a, d)) := by
  obtain ⟨mark, body, rfl, hlead, hitem⟩ := h
  refine ⟨mark, ?_, hitem _ _ hpass.advance⟩
  rw [takeIf_of_wanted (hlead c d hpass) hpass.following_ne_nil, hpass.current]

/-- The reader gives all phrases of a form that begins with a token of the kind, behind it. -/
def ReadsBehind (item : Token → Parse (List Phrase)) (kind : TokenKind) (form : Form)
    (bound : Nat) (stop : Cursor → Prop) : Prop :=
  ∀ ps, Builds form ps → (Phrase.tokensAll ps).length ≤ bound →
    Led (·.isAt kind) item stop (Phrase.tokensAll ps) ps

lemma optionalLed_reads {item : Token → Parse (List Phrase)} {form : Form} {bound : Nat}
    {kind : TokenKind} (h : ReadsBehind item kind form bound stop) :
    (optionalLed (·.isAt kind) item).ReadsAll (.opt form) bound
      (fun d => stop d ∧ d.kind ≠ kind) := by
  intro ps hps hlen c d hpass hd
  rcases builds_opt.mp hps with rfl | hps
  · obtain rfl := Cursor.passes_nil_iff.mp hpass
    rw [optionalLed, bind_of_ok (takeIf_of_not_wanted (decide_eq_false hd.2))]
    rfl
  · obtain ⟨mark, htake, hitem⟩ := (h ps hps hlen).take hpass
    rw [optionalLed, bind_of_ok htake]
    exact hitem hd.1

lemma length_le_flatMap (view : α → List Token) {a : α} {as : List α} (h : a ∈ as) :
    (view a).length ≤ (as.flatMap view).length := by
  obtain ⟨before, behind, rfl⟩ := List.append_of_mem h
  simp only [List.flatMap_append, List.flatMap_cons, List.length_append]
  omega

lemma manyLedWithin_gives (view : α → List Token) (hnext : ∀ c, lead c = true → stop c)
    (ahead : List Token) (as : List α) (c e : Cursor)
    (hitem : ∀ a ∈ as, Led lead item stop (view a) a)
    (hlen : (as.flatMap view).length ≤ ahead.length) (hpass : c.Passes (as.flatMap view) e)
    (he : stop e ∧ lead e = false) : manyLedWithin lead item ahead c = .ok (as, e) := by
  induction ahead generalizing as c with
  | nil =>
    cases as with
    | nil =>
      obtain rfl := Cursor.passes_nil_iff.mp hpass
      rfl
    | cons a as =>
      obtain ⟨mark, body, hview, _⟩ := hitem a (by simp)
      simp [hview] at hlen
  | cons _ ahead ih =>
    cases as with
    | nil =>
      obtain rfl := Cursor.passes_nil_iff.mp hpass
      rw [manyLedWithin, bind_of_ok (takeIf_of_not_wanted he.2)]
      rfl
    | cons a as =>
      have hled := hitem a (by simp)
      have hrest : ∀ b ∈ as, Led lead item stop (view b) b := fun b hb =>
        hitem b (List.mem_cons_of_mem _ hb)
      obtain ⟨d, hfirst, hmore⟩ := Cursor.passes_append_iff.mp hpass
      have hstop : stop d := by
        cases as with
        | nil =>
          obtain rfl := Cursor.passes_nil_iff.mp hmore
          exact he.1
        | cons b as =>
          obtain ⟨_, _, _, hlead, _⟩ := hrest b (by simp)
          obtain ⟨_, hb, _⟩ := Cursor.passes_append_iff.mp hmore
          exact hnext d (hlead d _ hb)
      obtain ⟨mark, htake, hgive⟩ := hled.take hfirst
      have hlen' : (as.flatMap view).length ≤ ahead.length := by
        obtain ⟨_, _, hview, _⟩ := hled
        simp only [List.flatMap_cons, hview, List.length_append, List.length_cons] at hlen
        omega
      have hrec := ih as d hrest hlen' hmore
      rw [manyLedWithin, bind_of_ok htake]
      simp only [bind_of_ok (hgive hstop), bind_of_ok hrec]
      rfl

/-- A loop gives all of its items. It is right to stop an item where the next one is led in. -/
lemma manyLed_gives (as : List α) (view : α → List Token)
    (hitem : ∀ a ∈ as, Led lead item stop (view a) a) (hnext : ∀ c, lead c = true → stop c) :
    (manyLed lead item).Gives (as.flatMap view) (fun d => stop d ∧ lead d = false) as := by
  intro c d hpass hd
  exact manyLedWithin_gives view hnext c.following as c d hitem hpass.length_le_following hpass hd

end Loops

section Sequences

variable {item : Parse (List Phrase)} {form : Form} {bound : Nat} {stop : Cursor → Prop}

lemma one_reads {item : Parse Phrase} (h : item.Reads form bound stop)
    (hsingle : form.single = true) : (one item).ReadsAll form bound stop := by
  intro ps hps hlen
  obtain ⟨p, rfl⟩ := hps.exists_single hsingle
  simp only [Phrase.tokensAll_cons, Phrase.tokensAll_nil, List.append_nil] at hlen ⊢
  exact (h p hps hlen).map

lemma manyBehind_reads {kind : TokenKind} (h : item.ReadsAll form bound stop)
    (hnext : ∀ c : Cursor, c.kind = kind → stop c) :
    (manyBehind kind item).ReadsAll (.many (.tok kind ++ form)) bound
      (fun d => stop d ∧ d.kind ≠ kind) := by
  intro ps hps hlen
  obtain ⟨groups, hgroups, rfl⟩ := builds_many.mp hps
  rw [Phrase.tokensAll_flatten] at hlen ⊢
  have hitem : ∀ group ∈ groups, Led (·.isAt kind)
      (fun mark => do let phrases ← item; return .leaf mark :: phrases) stop
      (Phrase.tokensAll group) group := by
    intro group hgroup
    have hle := length_le_flatMap Phrase.tokensAll hgroup
    obtain ⟨_, rest, hmark, hrest, rfl⟩ := builds_append.mp (hgroups group hgroup)
    obtain ⟨mark, hkind, rfl⟩ := builds_tok.mp hmark
    simp only [List.singleton_append, Phrase.tokensAll_cons, Phrase.tokens_leaf,
      List.length_cons] at hle ⊢
    exact .of_kind hkind (h rest hrest (by omega)).map rfl
  have hloop := manyLed_gives groups Phrase.tokensAll hitem fun c hc => hnext c (of_decide_eq_true hc)
  exact hloop.map.mono fun d hd => ⟨hd.1, decide_eq_false hd.2⟩

lemma commaSeparated_reads (h : item.ReadsAll form bound stop)
    (hcomma : ∀ c : Cursor, c.kind = .comma → stop c) :
    (commaSeparated item).ReadsAll (.list form) bound (fun d => stop d ∧ d.kind ≠ .comma) := by
  intro ps hps hlen
  obtain ⟨first, more, hfirst, hmore, rfl⟩ := builds_append.mp hps
  rw [Phrase.tokensAll_append] at hlen ⊢
  rw [List.length_append] at hlen
  have hmany := manyBehind_reads h hcomma more hmore (by omega)
  refine (h first hfirst (by omega)).bind hmany.map ?_
  exact .maybe_last hmore Form.startsWith_many hcomma fun d hd => hd.1

end Sequences

end Parse

end NullGuard
