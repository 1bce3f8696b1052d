import NullGuard.Proofs.AssembledStatements
import NullGuard.Proofs.Numbering
import NullGuard.Proofs.Rollbacks

/-!
# Assembling packages

One builder is used for all statements of a package. What was made of a statement that cannot be
read is undone exactly, so after each statement the builder is the one that comes of laying out what
was kept so far. At the end it is finished as the tree of the package.
-/

namespace NullGuard

lemma Cursor.Passes.mem_rest {c d : Cursor} {tokens : List Token} {token : Token}
    (h : c.Passes tokens d) (hmem : token ∈ c.rest) (hnot : token ∉ tokens) : token ∈ d.rest := by
  rw [h.rest] at hmem
  exact (List.mem_append.mp hmem).resolve_left hnot

namespace Call

def isRollback : Call → Bool
  | rollback _ => true
  | make _ | checkpoint => false

lemma Disciplined.append {calls more : List Call} (h : Disciplined calls)
    (hmore : ∀ call ∈ more, call.isRollback = false) : Disciplined (calls ++ more) := by
  induction more using List.reverseRecOn with
  | nil => rwa [List.append_nil]
  | append_singleton more call ih =>
    obtain ⟨hmore, hcall⟩ := List.forall_mem_append.mp hmore
    rw [← List.append_assoc, disciplined_concat]
    refine ⟨ih hmore, ?_⟩
    rintro number rfl
    cases hcall _ List.mem_cons_self

end Call

namespace Builder

variable {b b' : Builder} {parts : List Part}

lemma Grounded.grows (h : b.Grounded) (hgrows : b.Grows b') : b'.Grounded ∧ b.Extends b' := by
  obtain ⟨makings, rfl⟩ := hgrows
  induction makings generalizing b with
  | nil => exact ⟨h, h.extends_self⟩
  | cons making makings ih =>
    obtain ⟨hmake, hextends⟩ := h.make making
    obtain ⟨hrest, hmore⟩ := ih hmake
    exact ⟨hrest, hextends.trans hmore⟩

lemma after_append_make (b : Builder) (calls : List Call) (makings : List Making) :
    b.after (calls ++ makings.map .make) = (b.after calls).makeAll makings := by
  induction makings generalizing calls with
  | nil => rw [List.map_nil, List.append_nil]; rfl
  | cons making makings ih =>
    rw [List.map_cons, ← List.singleton_append, ← List.append_assoc, ih, after_concat]
    rfl

/-- The builder comes of calls that take a checkpoint before each statement, and that go back to a
live checkpoint for each statement that is left out. -/
def CalledFor (b : Builder) (parts : List Part) : Prop :=
  ∃ calls, Call.Disciplined calls ∧ b = ({} : Builder).after calls ∧
    Call.taken calls = parts.countP (fun part => part.isStatement || part.phrase?.isNone) ∧
    calls.countP Call.isRollback = parts.countP (·.phrase?.isNone)

lemma calledFor_nil : ({} : Builder).CalledFor [] := by
  refine ⟨[], ?_, rfl, rfl, rfl⟩
  rintro before number later hsplit
  simp at hsplit

lemma CalledFor.separator (h : b.CalledFor parts) (token : Token) (p : Phrase) :
    (b.token token).2.CalledFor (parts ++ [.separator p]) := by
  obtain ⟨calls, hcalls, rfl, htaken, hback⟩ := h
  refine ⟨calls ++ [.make (.token token)], hcalls.append (by simp [Call.isRollback]), ?_, ?_, ?_⟩
  · rw [after_concat]
    rfl
  · simpa [Call.taken, Call.isCheckpoint, Part.isStatement, Part.phrase?] using htaken
  · simpa [Call.isRollback, Part.phrase?] using hback

/-- What is made behind a checkpoint. -/
lemma after_checkpoint (b : Builder) (calls : List Call) (makings : List Making) :
    b.after (calls ++ .checkpoint :: makings.map .make) = (b.after calls).makeAll makings := by
  rw [← List.singleton_append, ← List.append_assoc, after_append_make, after_concat]
  rfl

lemma CalledFor.statement (h : b.CalledFor parts) (hgrows : b.Grows b') {part : Part}
    (hpart : part.isStatement = true) : b'.CalledFor (parts ++ [part]) := by
  obtain ⟨calls, hcalls, rfl, htaken, hback⟩ := h
  obtain ⟨makings, rfl⟩ := hgrows
  have hphrase : part.phrase?.isNone = false := by cases part <;> first | rfl | cases hpart
  refine ⟨calls ++ .checkpoint :: makings.map .make, hcalls.append ?_,
    (after_checkpoint _ _ _).symm, ?_, ?_⟩
  · simp [Call.isRollback]
  · rw [Call.taken] at htaken
    simp [Call.taken, Call.isCheckpoint, List.countP_cons, List.countP_map, Function.comp_def,
      htaken, hpart]
  · simp [Call.isRollback, List.countP_append, List.countP_map, Function.comp_def, hback, hphrase]

lemma CalledFor.rejected (h : b.CalledFor parts) (hgrows : b.Grows b') (failure : Failure)
    (skipped : Nat) : b.CalledFor (parts ++ [.rejected failure skipped]) := by
  obtain ⟨calls, hcalls, rfl, htaken, hback⟩ := h
  obtain ⟨makings, rfl⟩ := hgrows
  have hspares : ∀ call ∈ makings.map Call.make, call.spares (Call.taken calls) = true := by
    simp [Call.spares]
  refine ⟨calls ++ .checkpoint :: makings.map .make ++ [.rollback (Call.taken calls)], ?_,
    (grounded_empty.after_rollback calls _ hspares).symm, ?_, ?_⟩
  · refine Call.disciplined_concat.mpr ⟨hcalls.append (by simp [Call.isRollback]), ?_⟩
    rintro number ⟨⟩
    exact ⟨calls, _, rfl, rfl, hspares⟩
  · rw [Call.taken] at htaken ⊢
    simp [Call.isCheckpoint, List.countP_cons, List.countP_map, Function.comp_def, htaken,
      Part.phrase?]
  · simp [Call.isRollback, List.countP_append, List.countP_map, Function.comp_def, hback,
      Part.phrase?]

end Builder

namespace Assembly

variable {a : Assembly} {b : Builder} {c : Cursor} {parts : List Part}

/-- A statement that cannot be read leaves nothing behind in the builder. -/
theorem addStatement_of_error (hb : b.Grounded) (hc : c.EndsAhead) {failure : Failure}
    (h : Parse.statement c = .error failure) :
    a.addStatement ⟨c, b⟩ = a.recover failure ⟨failure.place, b⟩ := by
  have hagree := Assemble.wholeStatement_assembles b c b b.laysAll_nil hc
  rw [h] at hagree
  generalize hmade : Assemble.wholeStatement ⟨c, b⟩ = made at hagree
  cases hagree with
  | error hgrows =>
    simp only [addStatement, hmade]
    rw [(hb.grows hgrows).2.rollback_eq]

/-- What was read so far is the parts: their phrases are laid out, and their failures are kept. -/
structure Holds (a : Assembly) (b : Builder) (parts : List Part) : Prop where
  called : b.CalledFor parts
  laid : ({} : Builder).LaysAll (parts.filterMap Part.phrase?) a.children b
  failures_eq : a.failures = parts.filterMap Part.failure?
  skips_eq : a.skips = parts.filterMap Part.skipped?
  statements_eq : a.statements = parts.countP Part.isStatement

lemma holds_nil : ({} : Assembly).Holds {} [] :=
  ⟨Builder.calledFor_nil, Builder.laysAll_nil _, rfl, rfl, rfl⟩

lemma Holds.grounded (h : a.Holds b parts) : b.Grounded :=
  (Builder.grounded_empty.grows h.laid.grows).1

/-- A part goes behind the others when its phrase is laid out. -/
lemma Holds.concat (h : a.Holds b parts) (part : Part) {more : List NodeId} {b' : Builder}
    (hlaid : b.LaysAll part.phrase?.toList more b') (hcalled : b'.CalledFor (parts ++ [part])) :
    Holds ⟨a.children ++ more, a.statements + part.isStatement.toNat,
      a.failures ++ part.failure?.toList, a.skips ++ part.skipped?.toList⟩ b' (parts ++ [part]) where
  called := hcalled
  laid := by
    rw [List.filterMap_append]
    cases part <;> exact h.laid.append hlaid
  failures_eq := by
    rw [h.failures_eq, List.filterMap_append]
    cases part <;> rfl
  skips_eq := by
    rw [h.skips_eq, List.filterMap_append]
    cases part <;> rfl
  statements_eq := by
    rw [h.statements_eq, List.countP_append]
    cases part <;> rfl

/-- A statement is read as the next part of the package. -/
lemma Holds.addStatement (h : a.Holds b parts) (hc : c.EndsAhead) : ∃ b',
    (a.addStatement ⟨c, b⟩).2 = ⟨(Part.next c).2, b'⟩ ∧
      (a.addStatement ⟨c, b⟩).1.Holds b' (parts ++ [(Part.next c).1]) := by
  have hagree := Assemble.wholeStatement_assembles b c b b.laysAll_nil hc
  generalize hread : Parse.statement c = read at hagree
  generalize hmade : Assemble.wholeStatement ⟨c, b⟩ = made at hagree
  cases hagree with
  | @error failure b' hgrows =>
    rw [addStatement_of_error h.grounded hc hread, Part.next, hread]
    refine ⟨b, rfl, ?_⟩
    simpa [recover, Part.isStatement, Part.failure?, Part.skipped?] using
      h.concat (.rejected failure _) b.laysAll_nil (h.called.rejected hgrows failure _)
  | @ok p id d b' hp hd =>
    simp only [Assembly.addStatement, hmade, Part.next, hread]
    refine ⟨b', ?_, ?_⟩
    · split <;> rfl
    split
    · simpa [Part.isStatement, Part.failure?, Part.skipped?] using
        h.concat (.statement p) hp.all (h.called.statement hp.grows rfl)
    · simpa [recover, Part.isStatement, Part.failure?, Part.skipped?] using
        h.concat (.truncated p _ _) hp.all (h.called.statement hp.grows rfl)

lemma Holds.addAllWithin (h : a.Holds b parts) (hc : ∃ token ∈ c.rest, token.kind = .eof)
    (ahead : List Token) : (Assembly.addAllWithin ahead a ⟨c, b⟩).1.Holds
      (Assembly.addAllWithin ahead a ⟨c, b⟩).2.builder (parts ++ Part.allWithin ahead c) := by
  induction ahead generalizing a b c parts with
  | nil =>
    rw [Part.allWithin, List.append_nil]
    exact h
  | cons token ahead ih =>
    obtain ⟨stop, hmem, hstop⟩ := hc
    have hends : stop.kind.endsStatement = true := by rw [hstop]; rfl
    rw [Part.allWithin, Assembly.addAllWithin]
    by_cases hsemicolon : c.isAt .semicolon = true
    · rw [if_pos hsemicolon, if_pos hsemicolon]
      have hother : stop ∉ [c.current] := by
        rintro hcurrent
        rw [List.mem_singleton.mp hcurrent, ← Cursor.kind, Cursor.isAt_iff.mp hsemicolon] at hstop
        cases hstop
      have hfollowing := (List.mem_cons.mp hmem).resolve_left (mt List.mem_singleton.mpr hother)
      have hpass := Cursor.passes_advance (List.ne_nil_of_mem hfollowing)
      have hleaf : b.Lays (.leaf c.current) _ _ := rfl
      have hnext := h.concat (.separator (.leaf c.current)) hleaf.all
        (h.called.separator c.current _)
      simp only [Part.isStatement, Part.failure?, Part.skipped?, Bool.toNat_false, Nat.add_zero,
        Option.toList_none, List.append_nil] at hnext
      rw [← List.singleton_append, ← List.append_assoc]
      exact ih hnext ⟨stop, hpass.mem_rest hmem hother, hstop⟩
    rw [if_neg hsemicolon, if_neg hsemicolon]
    by_cases hend : c.isAtEnd = true
    · rw [if_pos hend, if_pos hend, List.append_nil]
      exact h
    · rw [if_neg hend, if_neg hend]
      have hinside : c.kind.endsStatement = false :=
        TokenKind.endsStatement_eq_false.mpr
          ⟨mt Cursor.isAt_iff.mpr hsemicolon, mt Cursor.isAt_iff.mpr hend⟩
      obtain ⟨b', hbench, hnext⟩ := h.addStatement ⟨stop, hmem, hends⟩
      obtain ⟨segment, _, hpass, hsegment, _⟩ := Part.next_covers c ⟨stop, hmem, hends⟩ hinside
      have hother : stop ∉ segment := by
        intro hstop
        rw [hsegment stop hstop] at hends
        cases hends
      dsimp only
      rw [hbench, ← List.singleton_append, ← List.append_assoc]
      exact ih hnext ⟨stop, hpass.mem_rest hmem hother, hstop⟩

lemma holds_ofTokens (tokens : List Token) : (ofTokens tokens).1.Holds (ofTokens tokens).2.builder
    (Part.all (.ofTokens tokens)) := by
  obtain ⟨e, hpass, he⟩ := Cursor.exists_passes_end tokens
  refine holds_nil.addAllWithin ⟨e.current, ?_, he⟩ _
  rw [hpass.rest]
  exact List.mem_append_right _ List.mem_cons_self

/-- The package is made with the discipline of checkpoints. One is taken before each statement that
is tried, and for each that is left out the builder goes back to it. -/
theorem package_calledFor (tokens : List Token) :
    (package tokens).2.CalledFor (Part.all (.ofTokens tokens)) := by
  obtain ⟨calls, hcalls, hafter, htaken, hback⟩ := (holds_ofTokens tokens).called
  refine ⟨calls ++ [.make (.node .package (ofTokens tokens).1.children)],
    hcalls.append (by simp [Call.isRollback]), ?_, ?_, ?_⟩
  · rw [Builder.after_concat]
    change _ = (Builder.node (({} : Builder).after calls) _ _).2
    rw [← hafter]
    rfl
  · simpa [Call.taken, Call.isCheckpoint] using htaken
  · simpa [Call.isRollback] using hback

/-- Whatever statements were undone, the package is made as its phrase is laid out. -/
theorem package_eq_lay (tokens : List Token) :
    package tokens = ({} : Builder).lay (Part.package (Part.all (.ofTokens tokens))) :=
  ((holds_ofTokens tokens).laid.node .package).symm

end Assembly

/-- Reading with one builder and reading phrases to lay them out at the end come to the same. -/
theorem assembleTokens_eq (scanned : List Diagnostic) (tokens : List Token) :
    assembleTokens scanned tokens = parseTokens scanned tokens := by
  have hholds := Assembly.holds_ofTokens tokens
  have hstatements : decide ((Assembly.ofTokens tokens).1.statements ≠ 0) =
      (Part.all (.ofTokens tokens)).any Part.isStatement := by
    rw [hholds.statements_eq, Bool.eq_iff_iff]
    simp [List.countP_eq_zero]
  simp only [assembleTokens, parseTokens, Parsed.ofParts, Assembly.package_eq_lay,
    hholds.failures_eq, hholds.skips_eq, hstatements]

lemma Expected.code_ne_shape (expected : Expected) : expected.code ≠ "P000" := by
  cases expected <;> simp [Expected.code]

/-- Reading never makes a malformed tree. Whatever the tokens are, the nodes that the readers made
with one builder, and did not undo, are finished as a tree that is numbered from the bottom up. What
is read comes of this builder, and no diagnostic tells of the shape of its tree. -/
theorem parseTokens_finishes (scanned : List Diagnostic) (tokens : List Token) :
    let made := Assembly.package tokens
    ∃ tree, made.2.finish made.1 = .ok tree ∧ tree.Numbered ∧
      parseTokens scanned tokens = assembleTokens scanned tokens ∧
      (∀ read, (parseTokens scanned tokens).tree = some read → read = tree) ∧
      ∃ failures, (parseTokens scanned tokens).diagnostics = scanned ++ failures ∧
        ∀ diagnostic ∈ failures, diagnostic.code ≠ some "P000" := by
  intro made
  have hbuilt := Part.all_built (.ofTokens tokens)
  refine ⟨_, ?_, Part.numbered_package hbuilt, (assembleTokens_eq scanned tokens).symm, ?_, _,
    (Parsed.ofParts_eq scanned _).1, ?_⟩
  · rw [show made = _ from Assembly.package_eq_lay tokens]
    exact Builder.finish_lay _
  · intro read hread
    exact Parsed.eq_toTree_of_tree hread
  · intro diagnostic hmem
    obtain ⟨failure, _, rfl⟩ := List.mem_map.mp hmem
    have hcode := failure.expected.code_ne_shape
    simpa [Failure.diagnostic, Cursor.errorHere, Diagnostic.errorAt] using hcode

end NullGuard
