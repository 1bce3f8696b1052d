import NullGuard.Proofs.AlikeTrees
import NullGuard.Proofs.JoinPlaces
import NullGuard.Proofs.TreeOrder
import NullGuard.Proofs.TurnedParts

/-!
# Trees with another side of a join

A token becomes a terminal of the tree unless it is left out, and which one it is can be told from
the tokens that are kept before it. If the token is a side of a join, then any other side in its
place gives the same tree, but for the kind of that terminal.
-/

namespace NullGuard

/-- The kind of a node, where the sides of joins are taken for one. -/
def NodeKind.face : NodeKind → NodeKind
  | terminal kind => terminal kind.face
  | kind => kind

/-- A node that does not tell which side of a join it is. -/
def Node.faced (node : Node) : Node := { node with kind := node.kind.face }

def Tree.faced (tree : Tree) : Tree := { tree with nodes := tree.nodes.map Node.faced }

def JoinKind.word : JoinKind → Keyword
  | inner => .inner
  | left => .left
  | right => .right
  | full => .full

lemma NodeKind.token?_face (kind : NodeKind) :
    kind.face.token? = kind.token?.map TokenKind.face := by
  cases kind <;> rfl

lemma NodeKind.isJoinSide_terminal (kind : TokenKind) :
    (terminal kind).isJoinSide = kind.isSide := by
  cases kind with
  | keyword word => cases word <;> rfl
  | _ => rfl

lemma NodeKind.isSome_of_isJoinSide {kind : NodeKind} (h : kind.isJoinSide = true) :
    kind.token?.isSome = true := by
  cases kind with
  | terminal kind => rfl
  | _ => cases h

lemma NodeKind.face_of_isJoinSide {kind : NodeKind} (h : kind.isJoinSide = true) :
    kind.face = .terminal (.keyword .inner) := by
  cases kind with
  | terminal kind => exact congrArg _ (if_pos (isJoinSide_terminal kind ▸ h))
  | _ => cases h

/-- Other kinds have their own faces. -/
lemma NodeKind.face_eq_iff {kind other : NodeKind} (h : kind.isJoinSide = false) :
    other.face = kind ↔ other = kind := by
  cases other with
  | terminal token =>
    cases kind with
    | terminal other =>
      rw [isJoinSide_terminal] at h
      simp [face, TokenKind.face_eq_iff h]
    | _ => simp [face]
  | _ => exact Iff.rfl

lemma JoinKind.isSide_word (side : JoinKind) : (TokenKind.keyword side.word).isSide = true := by
  cases side <;> rfl

namespace Phrase

variable {R : Token → Token → Prop}

mutual

lemma Alike.span_eq (hR : ∀ a b, R a b → a.span = b.span) {p q : Phrase} (h : p.Alike R q) :
    p.span = q.span := by
  cases h with
  | leaf htoken => exact hR _ _ htoken
  | node hparts => rw [span, span, Alike.spanAll_eq hR hparts]

lemma Alike.spanAll_eq (hR : ∀ a b, R a b → a.span = b.span) {ps qs : List Phrase}
    (h : List.Forall₂ (Alike R) ps qs) {s : Option Span} : spanAll s ps = spanAll s qs := by
  cases h with
  | nil => rfl
  | cons hfirst hrest => rw [spanAll, spanAll, Alike.span_eq hR hfirst, Alike.spanAll_eq hR hrest]

end

lemma Alike.top_faced {p q : Phrase} (h : p.Alike Token.Turned q) (base : Nat)
    (parent : Option NodeId) : (p.top base parent).faced = (q.top base parent).faced := by
  cases h with
  | leaf htoken =>
    simp only [top, Node.faced, NodeKind.face, htoken.face_eq, htoken.span_eq, htoken.text_eq]
  | @node kind ps qs hparts =>
    have hnumbers : numbers (base + 0) qs = (numbers base ps).map id :=
      Alike.numbers_eq hparts fun i _ _ => rfl
    have hspan : (Phrase.node kind ps).span = (Phrase.node kind qs).span :=
      Alike.span_eq (fun _ _ h => h.span_eq) (.node hparts)
    rw [Nat.add_zero, List.map_id] at hnumbers
    simp only [top, hnumbers, hspan]

mutual

lemma Alike.nodesBelow_faced {p q : Phrase} (h : p.Alike Token.Turned q) (base : Nat) :
    (p.nodesBelow base).map Node.faced = (q.nodesBelow base).map Node.faced := by
  cases h with
  | leaf htoken => rfl
  | node hparts =>
    rw [nodesBelow, nodesBelow, Alike.sizeAll_eq hparts]
    exact Alike.layoutAll_faced hparts base _

lemma Alike.layoutAll_faced {ps qs : List Phrase} (h : List.Forall₂ (Alike Token.Turned) ps qs)
    (base : Nat) (parent : Option NodeId) :
    (layoutAll base parent ps).map Node.faced = (layoutAll base parent qs).map Node.faced := by
  cases h with
  | nil => rfl
  | cons hfirst hrest =>
    simp only [layoutAll, List.map_append, List.map_cons, size, Alike.inside_eq hfirst]
    rw [Alike.nodesBelow_faced hfirst, Alike.top_faced hfirst, Alike.layoutAll_faced hrest]

end

/-- Alike phrases are laid out as trees that differ in the sides of joins at most. -/
lemma Alike.toTree_faced {p q : Phrase} (h : p.Alike Token.Turned q) :
    p.toTree.faced = q.toTree.faced := by
  have hlayout : (p.layout 0 none).map Node.faced = (q.layout 0 none).map Node.faced := by
    rw [layout, layout, List.map_append, List.map_append, h.nodesBelow_faced, List.map_singleton,
      List.map_singleton, h.top_faced]
  simp only [Tree.faced, toTree, List.map_toArray, hlayout, h.inside_eq]

end Phrase

namespace Tree

section Faced

variable (tree : Tree) (id : NodeId)

@[simp]
lemma root_faced : tree.faced.root = tree.root := rfl

@[simp]
lemma size_faced : tree.faced.size = tree.size := Array.size_map

@[simp]
lemma node_faced : tree.faced.node id = (tree.node id).faced := by
  simp only [node, faced, Array.getElem?_map]
  cases tree.nodes[id]? <;> rfl

@[simp]
lemma kind_faced : tree.faced.kind id = (tree.kind id).face := by
  rw [kind, node_faced]
  rfl

@[simp]
lemma span_faced : tree.faced.span id = tree.span id := by
  rw [span, node_faced]
  rfl

@[simp]
lemma parent_faced : tree.faced.parent id = tree.parent id := by
  rw [parent, node_faced]
  rfl

@[simp]
lemma children_faced : tree.faced.children id = tree.children id := by
  rw [children, node_faced]
  rfl

@[simp]
lemma tokenKind?_faced : tree.faced.tokenKind? id = (tree.tokenKind? id).map TokenKind.face := by
  rw [tokenKind?, kind_faced, NodeKind.token?_face, tokenKind?]

@[simp]
lemma ancestors_faced : tree.faced.ancestors id = tree.ancestors id := by
  have hwithin (count : Nat) (id : NodeId) :
      tree.faced.ancestorsAtMost count id = tree.ancestorsAtMost count id := by
    induction count generalizing id with
    | zero => rfl
    | succ count ih => simp only [ancestorsAtMost, parent_faced, ih]
  rw [ancestors, hwithin, size_faced, ancestors]

@[simp]
lemma descendants_faced : tree.faced.descendants id = tree.descendants id := by
  have hwithin (depth : Nat) (id : NodeId) :
      tree.faced.descendantsTo depth id = tree.descendantsTo depth id := by
    induction depth generalizing id with
    | zero => rfl
    | succ depth ih => simp only [descendantsTo, children_faced, ih]
  rw [descendants, hwithin, size_faced, descendants]

end Faced

def leaves (tree : Tree) : List NodeId :=
  (tree.root :: tree.descendants tree.root).filter fun id => (tree.tokenKind? id).isSome

/-- The token that a terminal shows. -/
def token? (tree : Tree) (id : NodeId) : Option Token :=
  (tree.tokenKind? id).map fun kind => ⟨kind, tree.span id, (tree.node id).text⟩

/-- The terminal that the token at a place became, if it was not left out. -/
def terminalOf? (tree : Tree) (tokens : List Token) (place : Nat) : Option NodeId :=
  if place ∈ Token.droppedPlaces tokens then none
  else tree.leaves[(Token.without (Token.droppedPlaces tokens) 0 (tokens.take place)).length]?

/-- The tree with another side of a join at a terminal. -/
def turn (tree : Tree) (word : NodeId) (side : JoinKind) : Tree :=
  { tree with nodes := tree.nodes.modify word fun node =>
      { node with kind := .terminal (.keyword side.word) } }

section Turn

variable {tree tree' : Tree} {id word : NodeId} {side : JoinKind}

/-- A tree is known by its faces and kinds. -/
lemma eq_of_faced (h : tree.faced = tree'.faced) (hkind : ∀ id, tree.kind id = tree'.kind id) :
    tree = tree' := by
  have hnodes : tree.nodes = tree'.nodes := by
    apply Array.ext_getElem?
    intro id
    have hnode := congrArg (fun tree : Tree => tree.nodes[id]?) h
    have hkind := hkind id
    simp only [faced, Array.getElem?_map, kind, node] at hnode hkind
    cases hx : tree.nodes[id]? <;> cases hy : tree'.nodes[id]? <;> rw [hx, hy] at hnode hkind
    · cases hnode
    · cases hnode
    case some.some x y =>
      obtain ⟨kind, span, parent, children, text⟩ := x
      obtain ⟨kind', span', parent', children', text'⟩ := y
      simp_all [Node.faced]
  obtain ⟨nodes, root⟩ := tree
  obtain ⟨nodes', root'⟩ := tree'
  simp_all [faced]

/-- Nodes other than sides of joins show their kinds in their faces. -/
lemma kind_eq_of_faced (h : tree'.faced = tree.faced) (hkind : (tree.kind id).isJoinSide = false) :
    tree'.kind id = tree.kind id := by
  rw [← NodeKind.face_eq_iff hkind, ← kind_faced, h, kind_faced, NodeKind.face_eq_iff hkind]

lemma kind_turn (h : (tree.kind word).isJoinSide = true) : (tree.turn word side).kind id =
    if word = id then .terminal (.keyword side.word) else tree.kind id := by
  have hlt : word < tree.size := lt_size_of_kind fun hkind => by
    rw [hkind] at h
    cases h
  unfold kind node turn
  simp only [Array.getElem?_modify]
  split
  case isTrue hid =>
    subst hid
    rw [Array.getElem?_eq_getElem hlt]
    rfl
  case isFalse => rfl

/-- The side of a join does not show in the face of the tree. -/
lemma faced_turn (h : (tree.kind word).isJoinSide = true) :
    (tree.turn word side).faced = tree.faced := by
  unfold faced turn
  congr 1
  apply Array.ext_getElem?
  intro id
  simp only [Array.getElem?_map, Array.getElem?_modify]
  split
  case isTrue hid =>
    subst hid
    cases hnode : tree.nodes[word]? with
    | none => rfl
    | some x =>
      have hkind : tree.kind word = x.kind := by
        rw [kind, node, hnode]
        rfl
      have hface : x.kind.face = (NodeKind.terminal (.keyword side.word)).face := by
        rw [← hkind, NodeKind.face_of_isJoinSide h, NodeKind.face_of_isJoinSide]
        rw [NodeKind.isJoinSide_terminal, side.isSide_word]
      simp only [Option.map_some, Node.faced, hface]
  case isFalse => rfl

end Turn

section Leaves

variable {tree tree' : Tree} {id word : NodeId}

@[simp]
lemma leaves_faced (tree : Tree) : tree.faced.leaves = tree.leaves := by simp [leaves]

lemma kind_of_token? {token : Token} (h : tree.token? id = some token) :
    tree.kind id = .terminal token.kind := by
  obtain ⟨kind, hkind, rfl⟩ := Option.map_eq_some_iff.mp h
  rw [tokenKind?] at hkind
  cases hnode : tree.kind id with
  | terminal other =>
    rw [hnode] at hkind
    exact congrArg _ (Option.some.inj hkind)
  | _ =>
    rw [hnode] at hkind
    cases hkind

/-- The terminals show the tokens of the tree one by one. -/
lemma token?_of_leaf {n : Nat} (h : tree.leaves[n]? = some id) :
    tree.token? id = (tree.terminals tree.root)[n]? := by
  have hshown : (tree.terminals tree.root).map some = tree.leaves.map tree.token? := by
    change List.map some (List.filterMap tree.token? _) = _
    rw [List.map_filterMap_some_eq_filter_map_isSome, List.filter_map, leaves]
    congr 2
    funext id
    simp [token?]
  have hplace := congrArg (·[n]?) hshown
  simp only [List.getElem?_map, h, Option.map_some] at hplace
  obtain ⟨token, htoken, hshows⟩ := Option.map_eq_some_iff.mp hplace
  rw [← hshows, htoken]

lemma exists_token?_of_leaf {n : Nat} (h : tree.leaves[n]? = some id) :
    ∃ token, tree.token? id = some token := by
  have hleaf := (List.mem_filter.mp (List.mem_of_getElem? h)).2
  obtain ⟨kind, hkind⟩ := Option.isSome_iff_exists.mp hleaf
  exact ⟨_, Option.map_eq_some_iff.mpr ⟨kind, hkind, rfl⟩⟩

lemma WellFormed.exists_leaf (h : tree.WellFormed) (hkind : (tree.tokenKind? id).isSome = true) :
    ∃ n : Nat, tree.leaves[n]? = some id := by
  have hlt : id < tree.size := by
    apply lt_size_of_kind
    intro hpackage
    rw [tokenKind?, hpackage] at hkind
    cases hkind
  have hleaf : id ∈ tree.leaves := List.mem_filter.mpr ⟨h.mem_descendants_root hlt, hkind⟩
  exact List.mem_iff_getElem?.mp hleaf

/-- Trees of the same faces are the same but for one terminal, if their tokens are the same but for
that one. -/
theorem WellFormed.eq_turn (h : tree.WellFormed) (hfaced : tree'.faced = tree.faced)
    {before behind : List Token} {a b : Token} {side : JoinKind}
    (htokens : tree.terminals tree.root = before ++ a :: behind)
    (htokens' : tree'.terminals tree'.root = before ++ b :: behind)
    (ha : a.kind.isSide = true) (hb : b.kind = .keyword side.word)
    (hword : tree.leaves[before.length]? = some word) : tree' = tree.turn word side := by
  have hside : (tree.kind word).isJoinSide = true := by
    have hshows : tree.token? word = some a := by
      rw [token?_of_leaf hword, htokens]
      simp
    rw [kind_of_token? hshows, NodeKind.isJoinSide_terminal, ha]
  have hleaves : tree'.leaves = tree.leaves := by
    rw [← leaves_faced, hfaced, leaves_faced]
  have hkind (id : NodeId) : tree'.kind id =
      if word = id then .terminal (.keyword side.word) else tree.kind id := by
    split
    case isTrue hid =>
      subst hid
      rw [← hleaves] at hword
      rw [← hb]
      apply kind_of_token?
      rw [token?_of_leaf hword, htokens']
      simp
    case isFalse hid =>
      cases hother : (tree.kind id).isJoinSide with
      | false => exact kind_eq_of_faced hfaced hother
      | true =>
        obtain ⟨n, hn⟩ := h.exists_leaf (NodeKind.isSome_of_isJoinSide hother)
        have hne : before.length ≠ n := by
          rintro rfl
          exact hid (Option.some.inj (hword.symm.trans hn))
        have hsame : tree'.token? id = tree.token? id := by
          rw [token?_of_leaf hn, token?_of_leaf (hleaves ▸ hn), htokens, htokens']
          have hset : before ++ b :: behind = (before ++ a :: behind).set before.length b := by simp
          rw [hset, List.getElem?_set_ne hne]
        obtain ⟨token, htoken⟩ := exists_token?_of_leaf hn
        rw [kind_of_token? htoken, kind_of_token? (hsame.trans htoken)]
  refine eq_of_faced (hfaced.trans (faced_turn hside).symm) fun id => ?_
  rw [hkind, kind_turn hside]

end Leaves

end Tree

def Token.turn (tokens : List Token) (place : Nat) (side : JoinKind) : List Token :=
  tokens.modify place fun token => { token with kind := .keyword side.word }

/-- The token that stands behind what is kept before a place is the one at the place, if it is kept
itself. -/
lemma Token.exists_of_without {places : List Nat} {tokens whole rest : List Token} {place : Nat}
    {token : Token} (htokens : whole ++ rest = tokens) (hkept : place ∉ places)
    (h : (without places 0 whole)[(without places 0 (tokens.take place)).length]? = some token) :
    ∃ before after, whole = before ++ token :: after ∧ before.length = place ∧
      tokens.take place = before := by
  subst htokens
  by_cases hlt : place < whole.length
  · obtain ⟨before, other, after, rfl, rfl⟩ : ∃ before other after,
        whole = before ++ other :: after ∧ before.length = place :=
      ⟨whole.take place, whole[place], whole.drop (place + 1), by simp, by simp; omega⟩
    have htake : (before ++ other :: after ++ rest).take before.length = before := by simp
    rw [htake, without_append, Nat.zero_add, without, if_neg hkept] at h
    simp only [List.getElem?_append_right, Nat.le_refl, Nat.sub_self, List.getElem?_cons_zero,
      Option.some.injEq] at h
    exact ⟨before, after, h ▸ rfl, rfl, htake⟩
  · rw [List.take_append, without_append, List.take_of_length_le (Nat.le_of_not_lt hlt),
      List.getElem?_eq_none (by simp)] at h
    cases h

/-- Behind as many kept tokens as there are before any of them stands the token at some place. -/
lemma Token.exists_place_of_lt {places : List Nat} {start n : Nat} {tokens : List Token}
    (h : n < (without places start tokens).length) :
    ∃ place, start + place ∉ places ∧ (without places start (tokens.take place)).length = n := by
  induction tokens generalizing start n with
  | nil => simp [without] at h
  | cons token tokens ih =>
    rw [without] at h
    split at h
    case isTrue hmem =>
      obtain ⟨place, hkept, hcount⟩ := ih h
      refine ⟨place + 1, by rwa [Nat.add_right_comm] at hkept, ?_⟩
      rw [List.take_succ_cons, without, if_pos hmem, hcount]
    case isFalse hnot =>
      cases n with
      | zero => exact ⟨0, hnot, rfl⟩
      | succ n =>
        obtain ⟨place, hkept, hcount⟩ := ih (by simpa using h)
        refine ⟨place + 1, by rwa [Nat.add_right_comm] at hkept, ?_⟩
        rw [List.take_succ_cons, without, if_neg hnot, List.length_cons, hcount]

/-- There are more kept tokens before a later place. -/
lemma Token.length_without_lt {places : List Nat} {before : List Token} (token : Token)
    (after : List Token) {place : Nat} (hkept : before.length ∉ places)
    (hlt : before.length < place) :
    (without places 0 before).length <
      (without places 0 ((before ++ token :: after).take place)).length := by
  obtain ⟨more, rfl⟩ : ∃ more, place = before.length + (more + 1) :=
    ⟨place - before.length - 1, by omega⟩
  rw [List.take_length_add_append, List.take_succ_cons, without_append, Nat.zero_add, without,
    if_neg hkept]
  simp

/-- The terminals of a package are the tokens that are kept. -/
lemma Part.terminals_all (c : Cursor) :
    (package (all c)).toTree.terminals (package (all c)).toTree.root =
      Phrase.tokensAll ((all c).filterMap phrase?) := by
  obtain ⟨_, _, hterminals⟩ := terminals_package (all c) (package_regular (all_built c))
  rw [hterminals, Phrase.tokensAll_eq_flatMap, List.flatMap_def]

/-- Where the parts are alike and fail at the same tokens, the same is wrong, and a tree is read of
both or of none. -/
lemma Parsed.ofParts_alike {R : Token → Token → Prop} {parts parts' : List Part}
    (h : List.Forall₂ (Part.Alike R Eq) parts parts') (scanned : List Diagnostic) :
    (ofParts scanned parts').diagnostics = (ofParts scanned parts).diagnostics ∧
      ((ofParts scanned parts).tree.isSome = true →
        (ofParts scanned parts').tree = some (Part.package parts').toTree) := by
  have htree := (ofParts_eq scanned parts).2
  have htree' := (ofParts_eq scanned parts').2
  have hsame := (diagnostics_alike h scanned).symm
  refine ⟨hsame, fun hsome => ?_⟩
  rw [htree', hasErrors, hsame, ← hasErrors, ← Part.any_isStatement_eq h, if_neg]
  intro hfailed
  rw [htree, if_pos hfailed] at hsome
  cases hsome

section Parsed

variable {scanned : List Diagnostic} {tokens : List Token} {tree : Tree} {place : Nat}
  {word : NodeId}

lemma Parsed.terminals_eq_without (htree : (parseTokens scanned tokens).tree = some tree) :
    tree.terminals tree.root =
      Token.without (Token.droppedPlaces tokens) 0 (Token.beforeEnd tokens) := by
  rw [eq_toTree_of_tree htree, Part.terminals_all, ← (Token.without_beforeEnd tokens).1]
  rfl

/-- The terminal that a token became shows it, and stands behind those of all tokens that are kept
before it. -/
lemma Parsed.exists_of_terminalOf? (htree : (parseTokens scanned tokens).tree = some tree)
    (h : tree.terminalOf? tokens place = some word) :
    ∃ before token after, tokens = before ++ token :: after ∧ before.length = place ∧
      (∀ other ∈ before, other.kind ≠ .eof) ∧ place ∉ Token.droppedPlaces tokens ∧
      tree.token? word = some token ∧
      tree.leaves[(Token.without (Token.droppedPlaces tokens) 0 before).length]? = some word := by
  unfold Tree.terminalOf? at h
  split at h
  · cases h
  case isFalse hkept =>
    obtain ⟨token, htoken⟩ := Tree.exists_token?_of_leaf h
    have hshows := (Tree.token?_of_leaf h).symm.trans htoken
    have hwhole := Token.beforeEnd_append_dropWhile tokens
    rw [terminals_eq_without htree] at hshows
    obtain ⟨before, after, hsplit, hlength, htake⟩ := Token.exists_of_without hwhole hkept hshows
    rw [htake] at h
    refine ⟨before, token, after ++ tokens.dropWhile (·.kind ≠ .eof), ?_, hlength, ?_, hkept,
      htoken, h⟩
    · conv_lhs => rw [← hwhole, hsplit]
      simp
    · intro other hother
      exact Token.kind_ne_eof_of_mem_beforeEnd tokens other (hsplit ▸ by simp [hother])

lemma Parsed.not_lt_of_terminalOf? (htree : (parseTokens scanned tokens).tree = some tree)
    (h : tree.terminalOf? tokens place = some word) {later : Nat}
    (h' : tree.terminalOf? tokens later = some word) : ¬place < later := by
  intro hlt
  have hnodup : tree.leaves.Nodup :=
    ((shaped_of_tree htree).toWellFormed.nodup_descendants tree.root).filter _
  obtain ⟨before, token, after, rfl, rfl, -, hkept, -, hleaf⟩ := exists_of_terminalOf? htree h
  have hlength := Token.length_without_lt token after hkept hlt
  unfold Tree.terminalOf? at h'
  split at h'
  · cases h'
  · obtain ⟨hbound, -⟩ := List.getElem?_eq_some_iff.mp hleaf
    exact Nat.ne_of_lt hlength ((List.getElem?_inj hbound hnodup).mp (hleaf.trans h'.symm))

/-- Every terminal comes from the token at one place. -/
lemma Parsed.existsUnique_place (htree : (parseTokens scanned tokens).tree = some tree)
    (hword : (tree.tokenKind? word).isSome = true) :
    ∃! place, tree.terminalOf? tokens place = some word := by
  have hwf : tree.WellFormed := (shaped_of_tree htree).toWellFormed
  obtain ⟨n, hn⟩ := hwf.exists_leaf hword
  have hlt : n < (Token.without (Token.droppedPlaces tokens) 0 tokens).length := by
    obtain ⟨token, htoken⟩ := Tree.exists_token?_of_leaf hn
    rw [Tree.token?_of_leaf hn, terminals_eq_without htree] at htoken
    obtain ⟨hlt, -⟩ := List.getElem?_eq_some_iff.mp htoken
    conv_rhs => arg 1; arg 3; rw [← Token.beforeEnd_append_dropWhile tokens]
    rw [Token.without_append, List.length_append]
    omega
  obtain ⟨place, hkept, hcount⟩ := Token.exists_place_of_lt hlt
  rw [Nat.zero_add] at hkept
  have hplace : tree.terminalOf? tokens place = some word := by
    rw [Tree.terminalOf?, if_neg hkept, hcount, hn]
  refine ⟨place, hplace, fun other hother => Nat.le_antisymm ?_ ?_⟩
  · exact Nat.le_of_not_lt (not_lt_of_terminalOf? htree hplace hother)
  · exact Nat.le_of_not_lt (not_lt_of_terminalOf? htree hother hplace)

/-- With another side of a join in the place of a token the same tree is read, but for the terminal
that the token became, and the same is wrong. -/
theorem parseTokens_turn (htree : (parseTokens scanned tokens).tree = some tree)
    (h : tree.terminalOf? tokens place = some word) (hside : (tree.kind word).isJoinSide = true)
    (side : JoinKind) :
    (parseTokens scanned (Token.turn tokens place side)).tree = some (tree.turn word side) ∧
      (parseTokens scanned (Token.turn tokens place side)).diagnostics =
        (parseTokens scanned tokens).diagnostics := by
  obtain ⟨before, a, after, rfl, rfl, hbefore, hkept, htoken, hleaf⟩ :=
    Parsed.exists_of_terminalOf? htree h
  have ha : a.kind.isSide = true := by
    rw [← NodeKind.isJoinSide_terminal, ← Tree.kind_of_token? htoken, hside]
  have hab : a.Turned { a with kind := .keyword side.word } :=
    ⟨(if_pos ha).trans (if_pos side.isSide_word).symm, rfl, rfl⟩
  obtain ⟨halike, behind, htokens, htokens'⟩ := Part.all_turned after hab ha hbefore hkept
  have hturn : Token.turn (before ++ a :: after) before.length side =
      before ++ { a with kind := .keyword side.word } :: after := by
    rw [Token.turn, List.modify_eq_take_cons_drop (by simp)]
    simp
  obtain ⟨hdiagnostics, hread⟩ := Parsed.ofParts_alike halike scanned
  rw [hturn]
  refine ⟨?_, hdiagnostics⟩
  rw [parseTokens, hread (by rw [← parseTokens, htree]; rfl)]
  have hphrases : Phrase.Alike Token.Turned (.node .package _) (.node .package _) :=
    .node (Part.phrases_alike halike)
  have hpackage := Parsed.eq_toTree_of_tree htree
  rw [← Part.terminals_all] at htokens htokens'
  rw [← hpackage] at htokens
  have hwf : tree.WellFormed := (Parsed.shaped_of_tree htree).toWellFormed
  rw [hwf.eq_turn (hpackage ▸ hphrases.toTree_faced.symm) htokens htokens' ha rfl hleaf]

end Parsed

end NullGuard
