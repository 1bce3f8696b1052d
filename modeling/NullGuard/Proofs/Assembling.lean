import NullGuard.Assembly.Package
import NullGuard.Proofs.BuilderRuns
import NullGuard.Proofs.ReaderSoundness

/-!
# Assembling what phrases say

A reader of phrases and a reader that makes nodes go over the same tokens. They agree if the nodes
are those that laying out the phrases makes, one behind the other, and if they fail at the same place
for want of the same. Nothing is known of the nodes that a failed reader leaves behind, except that
they were made. `StepsAt` keeps count of the phrases read so far and of their nodes; its rules follow
the way readers are put together.
-/

namespace NullGuard

variable {α β α' β' : Type}

namespace Builder

variable {b b' b'' : Builder} {p q : Phrase} {ps qs : List Phrase} {id : NodeId}
  {ids more : List NodeId}

/-- Laying a phrase out gives its node and leads to another builder. -/
def Lays (b : Builder) (p : Phrase) (id : NodeId) (b' : Builder) : Prop := b.lay p = (id, b')

def LaysAll (b : Builder) (ps : List Phrase) (ids : List NodeId) (b' : Builder) : Prop :=
  b.layAll ps = (ids, b')

/-- The builder comes from another one by making nodes. -/
def Grows (b b' : Builder) : Prop := ∃ makings, b' = b.makeAll makings

lemma Grows.refl (b : Builder) : b.Grows b := ⟨[], rfl⟩

lemma Grows.trans (h : b.Grows b') (h' : b'.Grows b'') : b.Grows b'' := by
  obtain ⟨makings, rfl⟩ := h
  obtain ⟨more, rfl⟩ := h'
  exact ⟨makings ++ more, (makeAll_append b makings more).symm⟩

lemma grows_token (b : Builder) (token : Token) : b.Grows (b.token token).2 := ⟨[.token token], rfl⟩

lemma grows_node (b : Builder) (kind : NodeKind) (children : List NodeId) :
    b.Grows (b.node kind children).2 := ⟨[.node kind children], rfl⟩

mutual

/-- Laying a phrase out only makes nodes. -/
lemma grows_lay (b : Builder) (p : Phrase) : b.Grows (b.lay p).2 := by
  cases p with
  | leaf token => exact b.grows_token token
  | node kind parts => exact (grows_layAll b parts).trans (grows_node _ kind _)

lemma grows_layAll (b : Builder) (ps : List Phrase) : b.Grows (b.layAll ps).2 := by
  cases ps with
  | nil => exact .refl b
  | cons p ps => exact (grows_lay b p).trans (grows_layAll _ ps)

end

lemma exists_lays (b : Builder) (p : Phrase) : ∃ id b', b.Lays p id b' := ⟨_, _, rfl⟩

lemma Lays.grows (h : b.Lays p id b') : b.Grows b' := by
  have hgrows := b.grows_lay p
  rwa [h] at hgrows

lemma LaysAll.grows (h : b.LaysAll ps ids b') : b.Grows b' := by
  have hgrows := b.grows_layAll ps
  rwa [h] at hgrows

lemma laysAll_nil (b : Builder) : b.LaysAll [] [] b := rfl

lemma LaysAll.eq_of_nil (h : b.LaysAll [] [] b') : b' = b := (Prod.mk.inj h).2.symm

lemma Lays.cons (h : b.Lays p id b') (hmore : b'.LaysAll ps ids b'') :
    b.LaysAll (p :: ps) (id :: ids) b'' := by
  rw [LaysAll, layAll, h]
  dsimp only
  rw [hmore]

lemma Lays.all (h : b.Lays p id b') : b.LaysAll [p] [id] b' := h.cons (laysAll_nil b')

/-- The node of a phrase is made when those of its parts are there. -/
lemma LaysAll.node (h : b.LaysAll ps ids b') (kind : NodeKind) :
    b.Lays (.node kind ps) (b'.node kind ids).1 (b'.node kind ids).2 := by
  rw [Lays, lay, h]

lemma laysAll_append_iff : b.LaysAll (ps ++ qs) more b'' ↔ ∃ ids later b', more = ids ++ later ∧
    b.LaysAll ps ids b' ∧ b'.LaysAll qs later b'' := by
  induction ps generalizing b more with
  | nil =>
    constructor
    · intro h
      exact ⟨[], more, b, rfl, b.laysAll_nil, h⟩
    · rintro ⟨ids, later, b', rfl, h, h'⟩
      obtain ⟨rfl, rfl⟩ := Prod.mk.inj h
      exact h'
  | cons p ps ih =>
    obtain ⟨id, b₁, hp⟩ := b.exists_lays p
    constructor
    · intro h
      obtain ⟨rest, b₂, hrest⟩ : ∃ rest b₂, b₁.LaysAll (ps ++ qs) rest b₂ := ⟨_, _, rfl⟩
      obtain ⟨rfl, rfl⟩ := Prod.mk.inj ((hp.cons hrest).symm.trans h)
      obtain ⟨ids, later, b', rfl, hps, hqs⟩ := ih.mp hrest
      exact ⟨id :: ids, later, b', rfl, hp.cons hps, hqs⟩
    · rintro ⟨ids, later, b', rfl, h, hqs⟩
      obtain ⟨rest, b₂, hrest⟩ : ∃ rest b₂, b₁.LaysAll ps rest b₂ := ⟨_, _, rfl⟩
      obtain ⟨rfl, rfl⟩ := Prod.mk.inj ((hp.cons hrest).symm.trans h)
      exact hp.cons (ih.mpr ⟨rest, later, b₂, rfl, hrest, hqs⟩)

lemma LaysAll.append (h : b.LaysAll ps ids b') (h' : b'.LaysAll qs more b'') :
    b.LaysAll (ps ++ qs) (ids ++ more) b'' := laysAll_append_iff.mpr ⟨ids, more, b', rfl, h, h'⟩

/-- The last of the phrases is laid out behind the others. -/
lemma LaysAll.of_concat (h : b.LaysAll (ps ++ [p]) (ids ++ [id]) b'') :
    ∃ b', b.LaysAll ps ids b' ∧ b'.Lays p id b'' := by
  obtain ⟨front, last, b', happend, hps, hp⟩ := laysAll_append_iff.mp h
  obtain ⟨rfl, rfl⟩ := Prod.mk.inj (show ([(b'.lay p).1], (b'.lay p).2) = (last, b'') from hp)
  obtain ⟨rfl, hid⟩ := List.append_inj' happend rfl
  rw [List.singleton_inj] at hid
  exact ⟨b', hps, Prod.ext hid.symm rfl⟩

lemma LaysAll.isEmpty_eq (h : b.LaysAll ps ids b') : ids.isEmpty = ps.isEmpty := by
  obtain ⟨rfl, _⟩ := Prod.mk.inj h
  cases ps <;> rfl

end Builder

namespace Assemble

open Builder (Lays LaysAll)

/-- Two results of reading agree. What is said of the values holds, at a place inside of a statement,
or both fail, and nodes were made of the builder `b` until then. -/
inductive Agree (b : Builder) (V : α → β → Builder → Prop) :
    Except Failure (α × Cursor) → Except Failure β × Workbench → Prop where
  | ok {a : α} {y : β} {d : Cursor} {b' : Builder} (hvalue : V a y b') (hd : d.EndsAhead) :
      Agree b V (.ok (a, d)) (.ok y, ⟨d, b'⟩)
  | error {failure : Failure} {b' : Builder} (hgrows : b.Grows b') :
      Agree b V (.error failure) (.error failure, ⟨failure.place, b'⟩)

variable {b b₁ : Builder} {c d : Cursor} {x : Parse α} {y : Assemble β} {f : α → Parse α'}
  {g : β → Assemble β'} {V : α → β → Builder → Prop} {W : α' → β' → Builder → Prop}

lemma bind_of_ok {bench bench' : Workbench} {z : β} (h : y bench = (.ok z, bench')) :
    (y >>= g) bench = g z bench' := by
  change ExceptT.bindCont g (y bench).1 (y bench).2 = _
  rw [h]
  rfl

lemma bind_of_error {bench bench' : Workbench} {failure : Failure}
    (h : y bench = (.error failure, bench')) : (y >>= g) bench = (.error failure, bench') := by
  change ExceptT.bindCont g (y bench).1 (y bench).2 = _
  rw [h]
  rfl

lemma here_bind (g : Cursor → Assemble β) (c : Cursor) (b : Builder) :
    (here >>= g) ⟨c, b⟩ = g c ⟨c, b⟩ := rfl

lemma bump_of_lays {id : NodeId} (h : b.Lays (.leaf c.current) id b₁) :
    bump ⟨c, b⟩ = (.ok id, ⟨c.advance, b₁⟩) := by
  obtain ⟨rfl, rfl⟩ := Prod.mk.inj h
  rfl

lemma one_of_ok {made : Assemble NodeId} {bench bench' : Workbench} {id : NodeId}
    (h : made bench = (.ok id, bench')) : one made bench = (.ok [id], bench') := bind_of_ok h

lemma bind_congr_at {y' : Assemble β} {bench : Workbench} (h : y bench = y' bench) :
    (y >>= g) bench = (y' >>= g) bench := by
  change ExceptT.bindCont g (y bench).1 (y bench).2 = _
  rw [h]
  rfl

lemma Agree.mono {r : Except Failure (α × Cursor)} {s : Except Failure β × Workbench}
    (h : Agree b₁ V r s) (hgrows : b.Grows b₁) : Agree b V r s := by
  cases h with
  | ok hvalue hd => exact .ok hvalue hd
  | error h => exact .error (hgrows.trans h)

lemma Agree.bind {bench : Workbench} (hx : Agree b V (x c) (y bench))
    (hf : ∀ a z d b', x c = .ok (a, d) → V a z b' → d.EndsAhead →
      Agree b W (f a d) (g z ⟨d, b'⟩)) :
    Agree b W ((x >>= f) c) ((y >>= g) bench) := by
  generalize hr : x c = r at hx
  generalize hs : y bench = s at hx
  cases hx with
  | ok hvalue hd =>
    rw [Parse.bind_of_ok hr, bind_of_ok hs]
    exact hf _ _ _ _ hr hvalue hd
  | error hgrows =>
    rw [Parse.bind_of_error hr, bind_of_error hs]
    exact .error hgrows

lemma Agree.map {s : Except Failure β × Workbench} {view : α → α'} {V' : α' → β → Builder → Prop}
    (h : Agree b V (x c) s) (hview : ∀ a z b', V a z b' → V' (view a) z b') :
    Agree b V' ((x >>= fun a => pure (view a)) c) s := by
  generalize hr : x c = r at h
  cases h with
  | ok hvalue hd =>
    rw [Parse.bind_of_ok hr]
    exact .ok (hview _ _ _ hvalue) hd
  | error hgrows =>
    rw [Parse.bind_of_error hr]
    exact .error hgrows

/-- At a place where phrases were read and laid out, the two readers agree. -/
def StepsAt (c : Cursor) (b : Builder) (ps : List Phrase) (ids : List NodeId) (x : Parse α)
    (y : Assemble β) (V : α → β → Builder → Prop) : Prop :=
  ∀ b₁, b.LaysAll ps ids b₁ → c.EndsAhead → Agree b V (x c) (y ⟨c, b₁⟩)

def Steps (b : Builder) (ps : List Phrase) (ids : List NodeId) (x : Parse α) (y : Assemble β)
    (V : α → β → Builder → Prop) : Prop := ∀ c, StepsAt c b ps ids x y V

/-- The nodes that are made at a place are those of the phrase that is read there. -/
def AssemblesAt (c : Cursor) (x : Parse Phrase) (y : Assemble NodeId) : Prop :=
  ∀ b, StepsAt c b [] [] x y b.Lays

def Assembles (x : Parse Phrase) (y : Assemble NodeId) : Prop := ∀ b, Steps b [] [] x y b.Lays

def AssemblesAllAt (c : Cursor) (x : Parse (List Phrase)) (y : Assemble (List NodeId)) : Prop :=
  ∀ b, StepsAt c b [] [] x y b.LaysAll

def AssemblesAll (x : Parse (List Phrase)) (y : Assemble (List NodeId)) : Prop :=
  ∀ b, Steps b [] [] x y b.LaysAll

/-- Inside of a statement, a token that is asked for is taken. -/
lemma takeIf_of_inside {wanted : Cursor → Bool} (hc : c.EndsAhead)
    (hinside : c.kind.endsStatement = false) (hwanted : wanted c = true) :
    Parse.takeIf wanted c = .ok (some c.current, c.advance) :=
  Parse.takeIf_of_wanted hwanted (hc.advance hinside).1

lemma require_of_inside {wanted : Cursor → Bool} {expected : Expected} (hc : c.EndsAhead)
    (hinside : c.kind.endsStatement = false) (hwanted : wanted c = true) :
    Parse.require wanted expected c = .ok (.leaf c.current, c.advance) := by
  rw [Parse.require, Parse.bind_of_ok (takeIf_of_inside hc hinside hwanted)]
  rfl

section Rules

variable {ps : List Phrase} {ids : List NodeId} {W : α → β → Builder → Prop}
  {x₁ : Parse Phrase} {y₁ : Assemble NodeId} {f : Phrase → Parse α} {g : NodeId → Assemble β}
  {xs : Parse (List Phrase)} {ys : Assemble (List NodeId)} {fs : List Phrase → Parse α}
  {gs : List NodeId → Assemble β}

lemma AssemblesAt.agree (h : AssemblesAt c x₁ y₁) (b : Builder) (hc : c.EndsAhead) :
    Agree b b.Lays (x₁ c) (y₁ ⟨c, b⟩) := h b b b.laysAll_nil hc

lemma AssemblesAllAt.agree (h : AssemblesAllAt c xs ys) (b : Builder) (hc : c.EndsAhead) :
    Agree b b.LaysAll (xs c) (ys ⟨c, b⟩) := h b b b.laysAll_nil hc

/-- A phrase that is read stands behind those that were read before. -/
lemma AssemblesAt.bind (h : AssemblesAt c x₁ y₁)
    (hf : ∀ p id, Steps b (ps ++ [p]) (ids ++ [id]) (f p) (g id) W) :
    StepsAt c b ps ids (x₁ >>= f) (y₁ >>= g) W := by
  intro b₁ hlaid hc
  refine ((h.agree b₁ hc).mono hlaid.grows).bind fun p id d b' _ hp hd => ?_
  exact hf p id d b' (hlaid.append hp.all) hd

lemma AssemblesAllAt.bind (h : AssemblesAllAt c xs ys)
    (hf : ∀ qs more, more.isEmpty = qs.isEmpty →
      Steps b (ps ++ qs) (ids ++ more) (fs qs) (gs more) W) :
    StepsAt c b ps ids (xs >>= fs) (ys >>= gs) W := by
  intro b₁ hlaid hc
  refine ((h.agree b₁ hc).mono hlaid.grows).bind fun qs more d b' _ hqs hd => ?_
  exact hf qs more hqs.isEmpty_eq d b' (hlaid.append hqs) hd

lemma Assembles.bind (h : Assembles x₁ y₁)
    (hf : ∀ p id, Steps b (ps ++ [p]) (ids ++ [id]) (f p) (g id) W) :
    Steps b ps ids (x₁ >>= f) (y₁ >>= g) W := fun c =>
  AssemblesAt.bind (fun b => h b c) hf

lemma AssemblesAll.bind (h : AssemblesAll xs ys)
    (hf : ∀ qs more, more.isEmpty = qs.isEmpty →
      Steps b (ps ++ qs) (ids ++ more) (fs qs) (gs more) W) :
    Steps b ps ids (xs >>= fs) (ys >>= gs) W := fun c =>
  AssemblesAllAt.bind (fun b => h b c) hf

/-- All that was read is the value. -/
lemma Steps.pure : Steps b ps ids (pure ps) (pure ids) b.LaysAll := by
  intro c b₁ hlaid hc
  exact .ok hlaid hc

lemma Steps.refuse {V : α → β → Builder → Prop} (expected : Expected) :
    Steps b ps ids (Parse.refuse expected) (refuse expected) V := by
  intro c b₁ hlaid _
  exact .error hlaid.grows

/-- All that was read is the parts of one phrase. -/
lemma Steps.node (kind : NodeKind) :
    Steps b ps ids (Pure.pure (.node kind ps)) (node kind ids) b.Lays := by
  intro c b₁ hlaid hc
  exact .ok (hlaid.node kind) hc

lemma Steps.nodes (kind : NodeKind) :
    Steps b ps ids (Pure.pure [.node kind ps]) (one (Assemble.node kind ids)) b.LaysAll := by
  intro c b₁ hlaid hc
  exact .ok (hlaid.node kind).all hc

/-- The last phrase that was read is put into a phrase of its own. -/
lemma Steps.wrap {p : Phrase} {id : NodeId} (kind : NodeKind)
    (h : ∀ outer, Steps b (ps ++ [.node kind [p]]) (ids ++ [outer]) x (g outer) W) :
    Steps b (ps ++ [p]) (ids ++ [id]) x (Assemble.node kind [id] >>= g) W := by
  intro c b₁ hlaid hc
  obtain ⟨b', hps, hp⟩ := hlaid.of_concat
  exact h _ c _ (hps.append (hp.all.node kind).all) hc

/-- The one phrase that was read is the value. -/
lemma Steps.single {p : Phrase} {id : NodeId} :
    Steps b [p] [id] (Pure.pure p) (Pure.pure id) b.Lays := by
  intro c b₁ hlaid hc
  have hconcat : b.LaysAll ([] ++ [p]) ([] ++ [id]) b₁ := hlaid
  obtain ⟨b', hnil, hp⟩ := hconcat.of_concat
  rw [hnil.eq_of_nil] at hp
  exact .ok hp hc

/-- A choice by the tokens ahead. -/
lemma StepsAt.here {f : Cursor → Parse α} {g : Cursor → Assemble β}
    (h : StepsAt c b ps ids (f c) (g c) W) :
    StepsAt c b ps ids ((get : Parse Cursor) >>= f) (Assemble.here >>= g) W := h

lemma Steps.here {f : Cursor → Parse α} {g : Cursor → Assemble β}
    (h : ∀ c, StepsAt c b ps ids (f c) (g c) W) :
    Steps b ps ids ((get : Parse Cursor) >>= f) (Assemble.here >>= g) W := fun c => (h c).here

lemma StepsAt.ite {p : Prop} [Decidable p] {x' : Parse α} {y' : Assemble β}
    (h : p → StepsAt c b ps ids x y W) (h' : ¬ p → StepsAt c b ps ids x' y' W) :
    StepsAt c b ps ids (if p then x else x') (if p then y else y') W := by
  split
  case isTrue hp => exact h hp
  case isFalse hp => exact h' hp

/-- A token that was looked at before is taken without asking. -/
lemma StepsAt.bump {wanted : Cursor → Bool} {expected : Expected} (hwanted : wanted c = true)
    (hinside : c.kind.endsStatement = false)
    (hf : ∀ id, StepsAt c.advance b (ps ++ [.leaf c.current]) (ids ++ [id]) (f (.leaf c.current))
      (g id) W) :
    StepsAt c b ps ids (Parse.require wanted expected >>= f) (Assemble.bump >>= g) W := by
  intro b₁ hlaid hc
  rw [Parse.bind_of_ok (require_of_inside hc hinside hwanted)]
  have hleaf : b₁.Lays (.leaf c.current) _ _ := rfl
  exact hf _ _ (hlaid.append hleaf.all) (hc.advance hinside).2

end Rules

section Combinators

variable {wanted : Cursor → Bool} {accepts : Token → Bool} {kind : TokenKind}
  {item : Parse (List Phrase)} {made : Assemble (List NodeId)}

lemma require_of_true {expected : Expected} (h : wanted c = true) :
    require wanted expected ⟨c, b⟩ = bump ⟨c, b⟩ := by
  change (if wanted c = true then bump else refuse expected) ⟨c, b⟩ = _
  rw [if_pos h]

lemma require_of_false {expected : Expected} (h : wanted c = false) :
    require wanted expected ⟨c, b⟩ = refuse expected ⟨c, b⟩ := by
  change (if wanted c = true then bump else refuse expected) ⟨c, b⟩ = _
  rw [h, if_neg (by simp)]

lemma require_assembles (h : Parse.Selects wanted accepts) (expected : Expected) :
    Assembles (Parse.require wanted expected) (require wanted expected) := by
  intro b c b₁ hlaid hc
  cases hwanted : wanted c with
  | false =>
    rw [Parse.require_of_not_wanted hwanted, require_of_false hwanted]
    exact .error hlaid.grows
  | true =>
    have hinside := h.inside _ (h.accepts_current c hwanted)
    obtain rfl := hlaid.eq_of_nil
    rw [require_of_inside hc hinside hwanted, require_of_true hwanted]
    exact .ok rfl (hc.advance hinside).2

lemma expectAs_assembles (h : kind.endsStatement = false) (expected : Expected) :
    Assembles (Parse.expectAs kind expected) (expectAs kind expected) :=
  require_assembles (Parse.selects_isAt h) expected

lemma expect_assembles (h : kind.endsStatement = false) :
    Assembles (Parse.expect kind) (expect kind) := expectAs_assembles h _

lemma keyword_assembles (word : Keyword) : Assembles (Parse.keyword word) (keyword word) :=
  expect_assembles rfl

lemma readIf_of_true (h : wanted c = true) : readIf wanted made ⟨c, b⟩ = made ⟨c, b⟩ := by
  change (if wanted c = true then made else pure []) ⟨c, b⟩ = _
  rw [if_pos h]

lemma readIf_of_false (h : wanted c = false) : readIf wanted made ⟨c, b⟩ = (.ok [], ⟨c, b⟩) := by
  change (if wanted c = true then made else pure []) ⟨c, b⟩ = _
  rw [h]
  rfl

lemma eat_of_lays {id : NodeId} (hwanted : wanted c = true) (h : b.Lays (.leaf c.current) id b₁) :
    eat wanted ⟨c, b⟩ = (.ok [id], ⟨c.advance, b₁⟩) :=
  (readIf_of_true hwanted).trans (one_of_ok (bump_of_lays h))

/-- What is read behind a token that leads it in goes with what is made from the token on. -/
def AssemblesLed (lead : Cursor → Bool) (item : Token → Parse α) (round : Assemble (List NodeId))
    (view : α → List Phrase) : Prop :=
  ∀ c b, lead c = true → c.EndsAhead →
    Agree b (fun a ids b' => b.LaysAll (view a) ids b') (item c.current c.advance) (round ⟨c, b⟩)

lemma AssemblesLed.of_bump {item : Token → Parse α} {next : NodeId → Assemble (List NodeId)}
    {view : α → List Phrase} (hlead : Parse.Selects wanted accepts)
    (h : ∀ b mark id, accepts mark = true → Steps b [.leaf mark] [id] (item mark) (next id)
      fun a ids b' => b.LaysAll (view a) ids b') :
    AssemblesLed wanted item (bump >>= next) view := by
  intro c b hwanted hc
  have haccepts := hlead.accepts_current c hwanted
  have hleaf : b.Lays (.leaf c.current) _ _ := rfl
  exact h b c.current _ haccepts c.advance _ hleaf.all (hc.advance (hlead.inside _ haccepts)).2

lemma AssemblesLed.bind {item : Token → Parse (List Phrase)} {f : List Phrase → Parse α}
    {g : List NodeId → Assemble (List NodeId)} {view : α → List Phrase}
    (h : AssemblesLed wanted item made id)
    (hf : ∀ b ps ids, Steps b ps ids (f ps) (g ids) fun a ids b' => b.LaysAll (view a) ids b') :
    AssemblesLed wanted (fun mark => item mark >>= f) (made >>= g) view := by
  intro c b hwanted hc
  exact (h c b hwanted hc).bind fun ps ids d b' _ hlaid hd => hf b ps ids d b' hlaid hd

lemma optionalLed_assembles {item : Token → Parse (List Phrase)}
    (hlead : Parse.Selects wanted accepts) (h : AssemblesLed wanted item made id) :
    AssemblesAll (Parse.optionalLed wanted item) (readIf wanted made) := by
  intro b c b₁ hlaid hc
  obtain rfl := hlaid.eq_of_nil
  cases hwanted : wanted c with
  | false =>
    rw [Parse.optionalLed, Parse.bind_of_ok (Parse.takeIf_of_not_wanted hwanted),
      readIf_of_false hwanted]
    exact .ok hlaid hc
  | true =>
    have hinside := hlead.inside _ (hlead.accepts_current c hwanted)
    rw [Parse.optionalLed, Parse.bind_of_ok (takeIf_of_inside hc hinside hwanted),
      readIf_of_true hwanted]
    exact h c b₁ hwanted hc

lemma optional_assembles (hlead : Parse.Selects wanted accepts) :
    AssemblesAll (Parse.optional wanted) (eat wanted) := by
  have hone : AssemblesLed wanted (fun mark => pure [.leaf mark]) (one bump) id :=
    .of_bump hlead fun b mark id _ => .pure
  intro b c b₁ hlaid hc
  have hagree := optionalLed_assembles hlead hone b c b₁ hlaid hc
  have hsame : Parse.optional wanted c =
      Parse.optionalLed wanted (fun mark => pure [.leaf mark]) c := by
    rcases Parse.takeIf_eq wanted c with hnone | ⟨hsome, _⟩
    · rw [Parse.optional, Parse.optionalLed, Parse.bind_of_ok hnone, Parse.bind_of_ok hnone]
      rfl
    · rw [Parse.optional, Parse.optionalLed, Parse.bind_of_ok hsome, Parse.bind_of_ok hsome]
      rfl
  rw [hsame]
  exact hagree

/-- A round of a loop that a token leads in. -/
lemma manyLedWithin_of_inside {item : Token → Parse α} {token : Token} {ahead : List Token}
    (hc : c.EndsAhead) (hinside : c.kind.endsStatement = false) (hwanted : wanted c = true) :
    Parse.manyLedWithin wanted item (token :: ahead) c = (do
      let first ← item c.current
      let more ← Parse.manyLedWithin wanted item ahead
      return first :: more : Parse (List α)) c.advance := by
  rw [Parse.manyLedWithin, Parse.bind_of_ok (takeIf_of_inside hc hinside hwanted)]

lemma manyLedWithin_assembles {item : Token → Parse α} {view : α → List Phrase}
    (hlead : Parse.Selects wanted accepts) (h : AssemblesLed wanted item made view)
    (ahead : List Token) (hc : c.EndsAhead) :
    Agree b (fun as ids b' => b.LaysAll (as.flatMap view) ids b')
      (Parse.manyLedWithin wanted item ahead c) (readWhileWithin wanted made ahead ⟨c, b⟩) := by
  induction ahead generalizing c b with
  | nil => exact .ok b.laysAll_nil hc
  | cons token ahead ih =>
    rw [readWhileWithin]
    cases hwanted : wanted c with
    | false =>
      rw [Parse.manyLedWithin_of_not_wanted hwanted, readIf_of_false hwanted]
      exact .ok b.laysAll_nil hc
    | true =>
      have hinside := hlead.inside _ (hlead.accepts_current c hwanted)
      rw [manyLedWithin_of_inside hc hinside hwanted, readIf_of_true hwanted]
      refine (h c b hwanted hc).bind fun a ids d b' _ ha hd => ?_
      refine ((ih hd).mono ha.grows).bind fun as more e b'' _ has he => ?_
      exact .ok (ha.append has) he

/-- A loop makes the nodes of all its rounds, one behind the other. -/
lemma manyLed_assembles {item : Token → Parse α} {view : α → List Phrase}
    (hlead : Parse.Selects wanted accepts) (h : AssemblesLed wanted item made view)
    (b : Builder) :
    Steps b [] [] (Parse.manyLed wanted item) (readWhile wanted made)
      fun as ids b' => b.LaysAll (as.flatMap view) ids b' := by
  intro c b₁ hlaid hc
  obtain rfl := hlaid.eq_of_nil
  exact manyLedWithin_assembles hlead h c.following hc

lemma one_assembles {item : Parse Phrase} {made : Assemble NodeId} (h : Assembles item made) :
    AssemblesAll (Parse.one item) (one made) := fun _ => h.bind fun _ _ => .pure

lemma manyBehind_assembles (h : AssemblesAll item made) (hkind : kind.endsStatement = false) :
    AssemblesAll (Parse.manyBehind kind item) (readBehind kind made) := by
  have hround : AssemblesLed (·.isAt kind)
      (fun mark => do
        let phrases ← item
        return .leaf mark :: phrases)
      (do
        let mark ← bump
        let made ← made
        return mark :: made) id :=
    .of_bump (Parse.selects_isAt hkind) fun b mark id _ => h.bind fun _ _ _ => .pure
  intro b c b₁ hlaid hc
  refine (manyLed_assembles (Parse.selects_isAt hkind) hround b c b₁ hlaid hc).map
    fun groups ids b' hgroups => ?_
  rwa [List.flatMap_id] at hgroups

lemma commaSeparated_assembles (h : AssemblesAll item made) :
    AssemblesAll (Parse.commaSeparated item) (commaSeparated made) := fun _ =>
  h.bind fun _ _ _ => (manyBehind_assembles h rfl).bind fun _ _ _ => .pure

lemma name_assembles : Assembles Parse.name name :=
  require_assembles (Grammar.selects_of_kind fun _ => Grammar.endsStatement_of_isName) _

lemma path_assembles : AssemblesAll Parse.path path :=
  manyBehind_assembles (one_assembles name_assembles) rfl

end Combinators

end Assemble

end NullGuard
