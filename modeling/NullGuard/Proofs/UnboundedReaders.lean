import NullGuard.Proofs.TurnedParts

/-!
# Readers without bounds

The readers are nested to a depth, and a loop has a round for each token at most. Neither is a
limit. The nested readers solve the equations of the grammar, in which readers call each other to
any depth, and nothing else does: each reader takes a token before it comes back to itself. A loop
goes on until no token leads in a round, since each round takes a token at least.
-/

namespace NullGuard

open Parse

mutual

lemma Phrase.Alike.eq {p q : Phrase} (h : p.Alike Eq q) : p = q := by
  cases h with
  | leaf htoken => rw [htoken]
  | node hparts => rw [Phrase.Alike.eq_all hparts]

lemma Phrase.Alike.eq_all {ps qs : List Phrase} (h : List.Forall₂ (Phrase.Alike Eq) ps qs) :
    ps = qs := by
  cases h with
  | nil => rfl
  | cons hfirst hrest => rw [Phrase.Alike.eq hfirst, Phrase.Alike.eq_all hrest]

end

namespace Pairing

/-- A statement beside itself. -/
def same {e : Cursor} (he : e.kind.endsStatement = true) : Pairing := .of Token.likeness_eq he he

variable {e : Cursor} {he : e.kind.endsStatement = true} {n : Nat} {c d : Cursor}

lemma Beside.eq (h : (same he).Beside n c d) : c = d := by
  obtain ⟨u, v, halike, _, hc, hd⟩ := h
  have huv : u = v := List.forall₂_eq_eq_eq ▸ halike.imp fun _ _ hab => hab.1
  exact Cursor.Passes.eq_of_eq_end hc (huv ▸ hd)

lemma Agree.eq {bound : Nat} {r s : Except Failure (Phrase × Cursor)}
    (h : (same he).Agree bound (same he).Like r s) : r = s := by
  cases h with
  | ok hvalue hbeside _ =>
    have hphrase := Phrase.Alike.eq (hvalue.mono fun _ _ hab => hab.1)
    rw [hphrase, hbeside.eq]
  | error hbeside => rw [hbeside.eq]

lemma beside_same (h : c.EndsAhead) : ∃ (e : Cursor) (he : e.kind.endsStatement = true) (n : Nat),
    (same he).Beside n c c := by
  obtain ⟨tokens, hpass, hinside, hends⟩ := c.skipStatement_passes h
  refine ⟨c.skipStatement, hends, tokens.length, tokens, tokens, ?_, rfl, hpass, hpass⟩
  exact List.forall₂_same.mpr fun token htoken => ⟨rfl, hinside token htoken⟩

lemma Beside.endsAhead (h : (same he).Beside n c d) : c.EndsAhead ∧ d.EndsAhead := by
  obtain ⟨u, v, _, _, hc, hd⟩ := h
  exact ⟨hc.endsAhead he, hd.endsAhead he⟩

end Pairing

namespace Grammar

variable {inner inner' : Nested} {context : Context} {c : Cursor}

/-- The nested readers are those of the grammar, to any depth: each reads what the grammar says by
means of all of them. -/
structure Solves (inner : Nested) : Prop where
  expression : ∀ context c, c.EndsAhead →
    inner.expression context c = Grammar.expression inner context c
  statement : ∀ c, c.EndsAhead → inner.statement c = Grammar.statement inner c
  source : ∀ c, c.EndsAhead → inner.source c = Grammar.source inner c

/-- The nested readers, to the depth that the tokens ahead bound. -/
def unbounded : Nested where
  expression context c := (nested c.rest.length).expression context c
  statement := Parse.statement
  source c := (nested c.rest.length).source c

/-- Any two solutions go in step, since they come back to nested readers with a token less. -/
lemma Solves.inStep (h : Solves inner) (h' : Solves inner') {e : Cursor}
    (he : e.kind.endsStatement = true) (k : Nat) : InStep (.same he) k inner inner' := by
  induction k with
  | zero =>
    have hnone {x y : Parse Phrase} : (Pairing.same he).Run 0 x y (Pairing.same he).Like :=
      fun n _ _ hn => absurd hn n.not_lt_zero
    exact ⟨fun _ => hnone, hnone, hnone⟩
  | succ k ih =>
    constructor
    · intro context n c d hn hbeside
      obtain ⟨hc, hd⟩ := hbeside.endsAhead
      rw [h.expression context c hc, h'.expression context d hd]
      exact (expression_step ih).run n c d hn hbeside
    · intro n c d hn hbeside
      obtain ⟨hc, hd⟩ := hbeside.endsAhead
      rw [h.statement c hc, h'.statement d hd]
      exact (statement_step ih).run n c d hn hbeside
    · intro n c d hn hbeside
      obtain ⟨hc, hd⟩ := hbeside.endsAhead
      rw [h.source c hc, h'.source d hd]
      exact (source_step ih).run n c d hn hbeside

lemma nested_inStep_unbounded {P : Pairing} {k m : Nat} (hm : k ≤ m) :
    InStep P k (nested m) unbounded := by
  have hdepth {n : Nat} {c d : Cursor} (hn : n < k) (hbeside : P.Beside n c d) :
      InStep P (n + 1) (nested m) (nested d.rest.length) :=
    nested_inStep (Nat.le_trans hn hm) (Nat.succ_le_succ hbeside.le_following.2)
  constructor
  · intro context n c d hn hbeside
    exact (hdepth hn hbeside).expression context n c d (Nat.lt_succ_self n) hbeside
  · intro n c d hn hbeside
    exact (hdepth hn hbeside).statement n c d (Nat.lt_succ_self n) hbeside
  · intro n c d hn hbeside
    exact (hdepth hn hbeside).source n c d (Nat.lt_succ_self n) hbeside

/-- The depth is no limit: the nested readers solve the equations of the grammar. -/
lemma unbounded_solves : Solves unbounded := by
  have hstep {c e : Cursor} {he : e.kind.endsStatement = true} {n : Nat}
      (hbeside : (Pairing.same he).Beside n c c) :
      InStep (.same he) n (nested c.following.length) unbounded :=
    nested_inStep_unbounded hbeside.le_following.1
  constructor
  · intro context c hc
    obtain ⟨e, he, n, hbeside⟩ := Pairing.beside_same hc
    exact (expression_step (hstep hbeside) n c c (Nat.lt_succ_self n) hbeside).eq
  · intro c hc
    obtain ⟨e, he, n, hbeside⟩ := Pairing.beside_same hc
    exact (statement_step (hstep hbeside) n c c (Nat.lt_succ_self n) hbeside).eq
  · intro c hc
    obtain ⟨e, he, n, hbeside⟩ := Pairing.beside_same hc
    exact (source_step (hstep hbeside) n c c (Nat.lt_succ_self n) hbeside).eq

/-- No other readers solve the equations. -/
lemma Solves.eq_unbounded (h : Solves inner) (hc : c.EndsAhead) :
    inner.expression context c = unbounded.expression context c ∧
      inner.statement c = unbounded.statement c ∧ inner.source c = unbounded.source c := by
  obtain ⟨e, he, n, hbeside⟩ := Pairing.beside_same hc
  have hstep := h.inStep unbounded_solves he (n + 1)
  exact ⟨(hstep.expression context n c c (Nat.lt_succ_self n) hbeside).eq,
    (hstep.statement n c c (Nat.lt_succ_self n) hbeside).eq,
    (hstep.source n c c (Nat.lt_succ_self n) hbeside).eq⟩

/-- A reader that is chosen by the place makes what all the readers make. -/
lemma makes_of_forall (readers : Cursor → Parse Phrase) {form : Form}
    (h : ∀ c, (readers c).Makes form) : Makes (fun c => readers c c) form := by
  intro c
  have hc := h c c
  unfold MeetsAt at hc ⊢
  exact hc

lemma unbounded_sound : unbounded.Sound where
  expression context := makes_of_forall (fun c => (nested c.rest.length).expression context)
    fun c => (nested_sound c.rest.length).expression context
  statement := Parse.statement_makes
  source := makes_of_forall (fun c => (nested c.rest.length).source)
    fun c => (nested_sound c.rest.length).source

end Grammar

namespace Parse

variable {α : Type} {lead : Cursor → Bool} {accepts : Token → Bool} {item : Token → Parse α}

/-- The rounds of a loop, as many as there are. Each takes the token that leads it in and what is
read behind it, all inside of the statement; the loop is left where no token leads in a round, or
where an item fails. -/
inductive Rounds (lead : Cursor → Bool) (item : Token → Parse α) :
    Cursor → Except Failure (List α × Cursor) → Prop where
  | leave {c : Cursor} (hlead : takeIf lead c = .ok (none, c)) : Rounds lead item c (.ok ([], c))
  | fail {c d : Cursor} {mark : Token} {failure : Failure}
      (hlead : takeIf lead c = .ok (some mark, d)) (hitem : item mark d = .error failure)
      (hreaches : c.Reaches failure.place) : Rounds lead item c (.error failure)
  | round {c d e : Cursor} {mark : Token} {taken : List Token} {a : α}
      {result : Except Failure (List α × Cursor)} (hlead : takeIf lead c = .ok (some mark, d))
      (hitem : item mark d = .ok (a, e)) (hpass : c.Passes (mark :: taken) e)
      (hinside : ∀ token ∈ mark :: taken, token.kind.endsStatement = false)
      (hmore : Rounds lead item e result) :
      Rounds lead item c (result.map fun more => (a :: more.1, more.2))

/-- Going on behind a round puts what it read before the rest. -/
lemma bind_pure_cons (reader : Parse (List α)) (a : α) (c : Cursor) :
    (reader >>= fun more => pure (a :: more)) c =
      (reader c).map fun more => (a :: more.1, more.2) := by
  cases hread : reader c with
  | error failure =>
    rw [bind_of_error hread]
    rfl
  | ok result =>
    rw [bind_of_ok hread]
    rfl

lemma manyLedWithin_rounds (h : Selects lead accepts)
    (hitem : ∀ mark, accepts mark = true → (item mark).Meets fun _ _ => True)
    (ahead : List Token) (c : Cursor) (hc : c.following.length ≤ ahead.length) :
    Rounds lead item c (manyLedWithin lead item ahead c) := by
  induction ahead generalizing c with
  | nil =>
    rcases takeIf_eq lead c with hnone | ⟨_, _, hne⟩
    · exact .leave hnone
    · exact absurd (List.length_eq_zero_iff.mp (Nat.le_zero.mp hc)) hne
  | cons token ahead ih =>
    unfold manyLedWithin
    rcases takeIf_eq lead c with hnone | ⟨hsome, hlead, hne⟩
    · rw [bind_of_ok hnone]
      exact .leave hnone
    · rw [bind_of_ok hsome]
      have haccepts := h.accepts_current c hlead
      have hmark := Cursor.passes_advance hne
      have hmeets := hitem c.current haccepts c.advance
      unfold MeetsAt at hmeets
      cases hread : item c.current c.advance with
      | error failure =>
        simp only [hread] at hmeets
        simp only [bind_of_error hread]
        have hfirst : c.Reaches c.advance :=
          ⟨[c.current], hmark, by simpa using h.inside _ haccepts⟩
        exact .fail hsome hread (hfirst.trans hmeets.1)
      | ok result =>
        obtain ⟨a, e⟩ := result
        simp only [hread] at hmeets
        obtain ⟨taken, hpass, hinside, _⟩ := hmeets
        have hwhole : c.Passes (c.current :: taken) e := hmark.trans hpass
        have hlength : e.following.length ≤ ahead.length := by
          have hfollowing := hwhole.length_following
          simp only [List.length_cons] at hfollowing hc
          omega
        simp only [bind_of_ok hread]
        rw [bind_pure_cons]
        exact .round hsome hread hwhole
          (List.forall_mem_cons.mpr ⟨h.inside _ haccepts, hinside⟩) (ih e hlength)

/-- The tokens ahead are no limit to a loop whose items only move on. -/
lemma manyLed_rounds (h : Selects lead accepts)
    (hitem : ∀ mark, accepts mark = true → (item mark).Meets fun _ _ => True) (c : Cursor) :
    Rounds lead item c (manyLed lead item c) :=
  manyLedWithin_rounds h hitem c.following c (Nat.le_refl _)

end Parse

end NullGuard
