import Datatent.CoreOld.Tree.Enumerating

/-!
# Lookups

Getting a key takes the descent of an insertion, which with duplicate keys goes on below an
entry with the key that it meets in an inner node. Whether it comes to an entry with the key is
told by the place of the first one in order: the descent misses an entry of an inner node
exactly if the searches in this node and in those above it do not pass any entry with the key.
-/

namespace Datatent.BTree

variable {K V : Type} [LinearOrder K]

/-! ### Places of entries -/

/-- The place of an entry: its node, and the nodes above from the parent on. -/
structure EntryPlace (K V : Type) where
  node : TreeNode K V
  above : List (TreeNode K V)
  entry : K × V

/-- The entries below a node in order, each at its place, down to a number of levels. -/
def placesBelow (nodes : Heap (TreeNode K V)) :
    Nat → List (TreeNode K V) → Nat → List (EntryPlace K V)
  | 0, _, _ => []
  | steps + 1, above, id =>
      match nodes id with
      | none => []
      | some node =>
          interleave (node.childrenIds.map (placesBelow nodes steps (node :: above)))
            (node.entries.map (fun entry => ⟨node, above, entry⟩))

/-- The first one of places whose entry has a key. -/
def firstWith (key : K) (places : List (EntryPlace K V)) : Option (EntryPlace K V) :=
  places.find? (·.entry.1 = key)

/-- The first entry in order with a key, at its place. -/
def NodeStore.firstPlace (store : NodeStore K V) (key : K) : Option (EntryPlace K V) :=
  match store.rootNode with
  | none => none
  | some root => firstWith key (placesBelow store.nodes store.idCounter [] root)

/-- The search for a key among entries finds one after the first one with the key. -/
def passesFirst (search : EntrySearch K V) (key : K) (entries : List (K × V)) : Bool :=
  match search.search entries key with
  | .found i => (entries.take i).any (·.1 = key)
  | .missing _ => false

/-- A place in a leaf, or from which a way up comes to a node whose search for the key passes
the first entry with it. -/
def EntryPlace.InReach (search : EntrySearch K V) (place : EntryPlace K V) : Prop :=
  place.node.isLeaf = true
    ∨ ∃ node ∈ place.node :: place.above, passesFirst search place.entry.1 node.entries = true

instance decidableInReach (search : EntrySearch K V) (place : EntryPlace K V) :
    Decidable (place.InReach search) :=
  inferInstanceAs (Decidable (place.node.isLeaf = true
    ∨ ∃ node ∈ place.node :: place.above, passesFirst search place.entry.1 node.entries = true))

section Places

variable {nodes : Heap (TreeNode K V)}

omit [LinearOrder K] in
/-- The entries at the places below the top node of a tree are its contents. -/
theorem Has.entries_placesBelow :
  ∀ {n parentId steps : Nat} {t : UTree (K × V) n} (above : List (TreeNode K V)),
    Has nodes parentId t → n ≤ steps →
      (placesBelow nodes steps above t.id).map EntryPlace.entry = t.contents
  | 0, _, _, t, _, _, _ => t.elim
  | n + 1, parentId, steps + 1, t, above, h, hsteps => by
      rw [placesBelow, h.node]
      dsimp only
      rw [map_interleave, List.map_map, List.map_map, List.map_map, UTree.contents_eq]
      congr 1
      · apply List.map_congr_left
        intro d hd
        exact (h.child hd).entries_placesBelow _ (Nat.le_of_succ_le_succ hsteps)
      · exact List.map_id _

omit [LinearOrder K] in
/-- The way up from a place below a node comes to this node and to the ones above it. -/
theorem mem_of_mem_placesBelow {node : TreeNode K V} {place : EntryPlace K V} :
  ∀ {steps id : Nat} {above : List (TreeNode K V)}, place ∈ placesBelow nodes steps above id →
    nodes id = some node ∨ node ∈ above → node ∈ place.node :: place.above
  | 0, _, _, hplace, _ => by cases hplace
  | steps + 1, id, above, hplace, hnode => by
      rw [placesBelow] at hplace
      cases hid : nodes id with
      | none =>
          rw [hid] at hplace
          cases hplace
      | some top =>
          rw [hid] at hplace hnode
          have hnode : node ∈ top :: above := by
            rw [List.mem_cons]
            exact hnode.imp_left (fun h => (Option.some.inj h).symm)
          obtain hplace | ⟨places, hplaces, hplace⟩ := mem_interleave hplace
          · obtain ⟨e, -, rfl⟩ := List.mem_map.mp hplace
            exact hnode
          · obtain ⟨child, -, rfl⟩ := List.mem_map.mp hplaces
            exact mem_of_mem_placesBelow hplace (.inr hnode)

/-- The first place with a key is one of the places, and its entry has the key. -/
theorem of_firstWith {key : K} {places : List (EntryPlace K V)} {place : EntryPlace K V}
    (h : firstWith key places = some place) :
  place ∈ places ∧ place.entry.1 = key
  := by
  have hkey := List.find?_some h
  exact ⟨List.mem_of_find?_eq_some h, of_decide_eq_true hkey⟩

/-- There is no first place with a key that no entry has. -/
theorem firstWith_eq_none {key : K} {places : List (EntryPlace K V)} :
  firstWith key places = none ↔ ∀ e ∈ places.map EntryPlace.entry, e.1 ≠ key
  := by
  rw [firstWith, List.find?_eq_none, List.forall_mem_map]
  simp

/-- The first place with a key that none of the first places has. -/
theorem firstWith_append {key : K} {places places' : List (EntryPlace K V)}
    (h : ∀ e ∈ places.map EntryPlace.entry, e.1 ≠ key) :
  firstWith key (places ++ places') = firstWith key places'
  := by
  have hnone := firstWith_eq_none.mpr h
  rw [firstWith] at hnone ⊢
  rw [List.find?_append, hnone, Option.none_or]
  rfl

end Places

/-! ### The leaf at the end of the descent -/

/-- The entries of the leaf below a node that an entry with the key belongs to, down to a
number of levels: from a node with children the way goes on at the child at the position of
the key. -/
def leafBelow (search : EntrySearch K V) (nodes : Heap (TreeNode K V)) (key : K) :
    Nat → Nat → List (K × V)
  | 0, _ => []
  | steps + 1, id =>
      match nodes id with
      | none => []
      | some node =>
          if node.isEmpty || node.isLeaf then node.entries
          else
            match node.childrenIds[(search.search node.entries key).position]? with
            | none => []
            | some child => leafBelow search nodes key steps child

/-- The entries of the leaf that an entry with the key belongs to. -/
def NodeStore.leafFor (search : EntrySearch K V) (store : NodeStore K V) (key : K) :
    List (K × V) :=
  match store.rootNode with
  | none => []
  | some root => leafBelow search store.nodes key store.idCounter root

section Leaf

variable {m : Nat} {search : EntrySearch K V} {key : K} {store store' : NodeStore K V}

theorem read_eq_ok {id : Nat} {node : TreeNode K V}
    (h : (treeMemoryNodeManager m search).read id store = .ok node store') :
  store = store' ∧ store.nodes id = some node
  := by
  obtain ⟨_, _, ⟨⟩, h⟩ := EStateM.bind_eq_ok.mp h
  cases hnode : store.nodes id with
  | none =>
      rw [hnode] at h
      cases h
  | some node' =>
      rw [hnode] at h
      cases h
      exact ⟨rfl, rfl⟩

theorem find_eq_ok {id : Nat} {found : Option Nat}
    (h : (treeMemoryNodeManager m search).find id store = .ok found store') :
  store = store' ∧ found = some id
  := by
  obtain ⟨_, _, ⟨⟩, hget⟩ := EStateM.bind_eq_ok.mp h
  cases hnode : store.nodes id with
  | none =>
      rw [hnode] at hget
      cases hget
  | some node =>
      rw [hnode] at hget
      cases hget
      exact ⟨rfl, rfl⟩

/-- The child of a node at a position is the one the node lists there. -/
theorem getChildNode_eq_ok {id i child : Nat} {node : TreeNode K V}
    (hnode : store.nodes id = some node)
    (h : TreeNode.getChildNode (treeMemoryNodeManager m search) id i store = .ok child store') :
  store = store' ∧ node.childrenIds[i]? = some child
  := by
  obtain ⟨_, _, hread, hchild⟩ := EStateM.bind_eq_ok.mp h
  obtain ⟨rfl, hnode'⟩ := read_eq_ok hread
  rw [hnode, Option.some.injEq] at hnode'
  subst hnode'
  obtain ⟨childId, _, hitem, hfound⟩ := EStateM.bind_eq_ok.mp hchild
  rw [item] at hitem
  cases hlist : node.childrenIds[i]? with
  | none =>
      rw [hlist] at hitem
      cases hitem
  | some childId' =>
      rw [hlist] at hitem
      cases hitem
      obtain ⟨found, _, hfind, hsome⟩ := EStateM.bind_eq_ok.mp hfound
      obtain ⟨rfl, rfl⟩ := find_eq_ok hfind
      cases hsome
      exact ⟨rfl, rfl⟩

/-- In a tree with duplicate keys the descent for an insertion ends at the leaf that the key
belongs to, with a search among its entries. -/
theorem find_leafBelow :
  ∀ {steps id id' : Nat} {result : SearchResult},
    (memoryTree m search true).findNodeForInsertion key steps id store = .ok (id', result) store' →
      ∃ node, store.nodes id' = some node
        ∧ leafBelow search store.nodes key steps id = node.entries
        ∧ result = search.search node.entries key
  | 0, _, _, _, h => by cases h
  | steps + 1, id, id', result, h => by
      rw [Tree.findNodeForInsertion] at h
      obtain ⟨node, _, hread, hrest⟩ := EStateM.bind_eq_ok.mp h
      obtain ⟨rfl, hnode⟩ := read_eq_ok hread
      have hbelow : ∀ {i : Nat}, (search.search node.entries key).position = i →
          ¬ node.isEmpty = true → ¬ node.isLeaf = true →
          (do
            let child ← TreeNode.getChildNode (treeMemoryNodeManager m search) id i
            (memoryTree m search true).findNodeForInsertion key steps child) store
              = .ok (id', result) store' →
          ∃ node, store.nodes id' = some node
            ∧ leafBelow search store.nodes key (steps + 1) id = node.entries
            ∧ result = search.search node.entries key := by
        intro i hposition hempty hleaf hdo
        obtain ⟨child, _, hget, hfind⟩ := EStateM.bind_eq_ok.mp hdo
        obtain ⟨rfl, hchild⟩ := getChildNode_eq_ok hnode hget
        rw [leafBelow, hnode]
        dsimp only
        rw [if_neg (by simp [hempty, hleaf]), hposition, hchild]
        exact find_leafBelow hfind
      have hends : (node.isEmpty || node.isLeaf) = true →
          result = search.search node.entries key → id' = id →
          ∃ node, store.nodes id' = some node
            ∧ leafBelow search store.nodes key (steps + 1) id = node.entries
            ∧ result = search.search node.entries key := by
        rintro hend hresult rfl
        refine ⟨node, hnode, ?_, hresult⟩
        rw [leafBelow, hnode]
        dsimp only
        rw [if_pos hend]
      by_cases hempty : node.isEmpty = true
      · rw [if_pos hempty] at hrest
        cases hrest
        apply hends
        · rw [hempty, Bool.true_or]
        · rw [List.isEmpty_iff.mp hempty, EntrySearch.search_nil]
        · rfl
      · rw [if_neg hempty] at hrest
        simp only [entrySearch_eq] at hrest
        by_cases hleaf : node.isLeaf = true
        · have hend : (node.isEmpty || node.isLeaf) = true := by rw [hleaf, Bool.or_true]
          cases hsearch : search.search node.entries key with
          | found i =>
              rw [hsearch] at hrest
              dsimp only at hrest
              rw [if_neg (fun h => h.2 hleaf)] at hrest
              cases hrest
              exact hends hend hsearch.symm rfl
          | missing i =>
              rw [hsearch] at hrest
              dsimp only at hrest
              rw [if_pos hleaf] at hrest
              cases hrest
              exact hends hend hsearch.symm rfl
        · cases hsearch : search.search node.entries key with
          | found i =>
              rw [hsearch] at hrest
              dsimp only at hrest
              rw [if_pos ⟨trivial, hleaf⟩] at hrest
              exact hbelow (by rw [hsearch]; rfl) hempty hleaf hrest
          | missing i =>
              rw [hsearch] at hrest
              dsimp only at hrest
              rw [if_neg hleaf] at hrest
              exact hbelow (by rw [hsearch]; rfl) hempty hleaf hrest

end Leaf

/-! ### Entries in reach -/

section Reach

variable {nodes : Heap (TreeNode K V)} {search : EntrySearch K V} {key : K}

/-- The entries before and after the position of a search: either it passes an entry with the
key and the next one has the key as well, or all before are less and the next one has the key
or all after are greater. -/
theorem split_at_position (search : EntrySearch K V) (key : K) {entries : List (K × V)}
    (hordered : Ordered entries) :
  ∃ es es', entries = es ++ es' ∧ es.length = (search.search entries key).position
    ∧ ((passesFirst search key entries = true ∧ (∃ e ∈ es, e.1 = key)
          ∧ ∃ e rest, es' = e :: rest ∧ e.1 = key)
      ∨ (passesFirst search key entries = false ∧ (∀ e ∈ es, e.1 < key)
          ∧ ((∀ e ∈ es', key < e.1) ∨ ∃ e rest, es' = e :: rest ∧ e.1 = key)))
  := by
  cases hsearch : search.search entries key with
  | missing i =>
      obtain ⟨es, es', rfl, hi, hes, hes'⟩ := EntrySearch.split_of_missing hordered hsearch
      refine ⟨es, es', rfl, hi, .inr ⟨?_, hes, .inl hes'⟩⟩
      rw [passesFirst, hsearch]
  | found i =>
      obtain ⟨es, e, rest, rfl, hi, hkey⟩ := EntrySearch.split_of_found hordered hsearch
      have hpasses : passesFirst search key (es ++ e :: rest)
          = es.any (fun e => decide (e.1 = key)) := by
        rw [passesFirst, hsearch]
        dsimp only
        rw [← hi, List.take_left]
      refine ⟨es, e :: rest, rfl, hi, ?_⟩
      by_cases hes : ∃ e ∈ es, e.1 = key
      · refine .inl ⟨?_, hes, e, rest, rfl, hkey⟩
        rw [hpasses, List.any_eq_true]
        exact hes.imp fun _ h => ⟨h.1, decide_eq_true h.2⟩
      · refine .inr ⟨?_, ?_, .inr ⟨e, rest, rfl, hkey⟩⟩
        · rw [hpasses, List.any_eq_false]
          exact fun x hx hsame => hes ⟨x, hx, of_decide_eq_true hsame⟩
        · intro x hx
          rw [Ordered, List.pairwise_append] at hordered
          have hle : x.1 ≤ key := hkey ▸ hordered.2.2 x hx e List.mem_cons_self
          exact lt_of_le_of_ne (α := K) hle (fun hsame => hes ⟨x, hx, hsame⟩)

/-- A tree around the child of its top node at which the descent goes on. -/
structure AroundChild (search : EntrySearch K V) (key : K) {n : Nat} (t : UTree (K × V) (n + 2))
    (es es' : List (K × V)) (ls rs : List (UTree (K × V) (n + 1))) (c : UTree (K × V) (n + 1)) :
    Prop where
  eq : t = UTree.node t.id (es ++ es') (ls ++ c :: rs)
  left : ls.length = es.length
  right : es'.length = rs.length
  entries : t.entries = es ++ es'
  position : es.length = (search.search t.entries key).position
  child : c ∈ t.children
  sound : c.Sound
  contents : t.contents = followed (ls.map UTree.contents) es
    ++ (c.contents ++ preceded es' (rs.map UTree.contents))

/-- Every sound tree of more than one level is seen around this child. -/
theorem exists_aroundChild {n : Nat} {t : UTree (K × V) (n + 2)} {es es' : List (K × V)}
    (ht : t.SoundTop) (hentries : t.entries = es ++ es')
    (hposition : es.length = (search.search t.entries key).position) :
  ∃ ls rs c, AroundChild search key t es es' ls rs c
  := by
  obtain ⟨ls, c, rs, heq, hl, hr⟩ := ht.linked.exists_child hentries
  have hchild : c ∈ t.children := by
    rw [heq]
    exact List.mem_append_right ls List.mem_cons_self
  have hcontents := congrArg UTree.contents heq
  rw [UTree.contents_node c hl hr] at hcontents
  exact ⟨ls, rs, c, heq, hl, hr, hentries, hposition, hchild, ht.sound c hchild, hcontents⟩

namespace AroundChild

variable {n parentId steps : Nat} {t : UTree (K × V) (n + 2)} {es es' : List (K × V)}
  {ls rs : List (UTree (K × V) (n + 1))} {c : UTree (K × V) (n + 1)}

/-- The contents of the child are some of those of the tree. -/
theorem sublist (h : AroundChild search key t es es' ls rs c) :
  c.contents.Sublist t.contents
  := by
  rw [h.contents]
  exact (List.sublist_append_left _ _).trans (List.sublist_append_right _ _)

/-- The descent goes on at the child. -/
theorem leafBelow_eq (h : AroundChild search key t es es' ls rs c) (ht : t.SoundTop)
    (hhas : Has nodes parentId t) :
  leafBelow search nodes key (steps + 1) t.id = leafBelow search nodes key steps c.id
  := by
  have hchildren : t.children = ls ++ c :: rs := by
    rw [h.eq]
    rfl
  have hchild : (t.children.map (·.id))[ls.length]? = some c.id := by
    rw [hchildren, List.getElem?_map, List.getElem?_append_right (Nat.le_refl _), Nat.sub_self]
    rfl
  rw [leafBelow, hhas.node]
  dsimp only
  rw [if_neg, ← h.position, ← h.left, hchild]
  rw [Bool.or_eq_true, not_or]
  refine ⟨?_, not_isLeaf _ _ ht.linked⟩
  rw [TreeNode.isEmpty, List.isEmpty_iff]
  exact ht.nonempty (Nat.succ_ne_zero n)

/-- The places below the top node around those below the child. -/
theorem placesBelow_eq (h : AroundChild search key t es es' ls rs c)
    (hhas : Has nodes parentId t) (above : List (TreeNode K V)) {top : TreeNode K V}
    (htop : nodes t.id = some top) :
  placesBelow nodes (steps + 1) above t.id
    = followed (ls.map (fun d => placesBelow nodes steps (top :: above) d.id))
        (es.map (fun entry => ⟨top, above, entry⟩))
      ++ (placesBelow nodes steps (top :: above) c.id
        ++ preceded (es'.map (fun entry => ⟨top, above, entry⟩))
            (rs.map (fun d => placesBelow nodes steps (top :: above) d.id)))
  := by
  have hnode := hhas.node
  rw [htop, Option.some.injEq] at hnode
  have hentries : top.entries = es ++ es' := by rw [hnode, ← h.entries]
  have hchildren : top.childrenIds = (ls ++ c :: rs).map (·.id) := by
    rw [hnode, h.eq]
    rfl
  rw [placesBelow, htop]
  dsimp only
  rw [hentries, hchildren, List.map_map, List.map_append, List.map_append, List.map_cons]
  apply interleave_append
  · rw [List.length_map, List.length_map, h.left]
  · rw [List.length_map, List.length_map, h.right]

end AroundChild

/-- The entries at the end of the descent are some of the contents. -/
theorem Has.leafBelow_spec :
  ∀ {n parentId steps : Nat} {t : UTree (K × V) (n + 1)}, Has nodes parentId t → n + 1 ≤ steps →
    t.SoundTop → Ordered t.contents →
      (∀ e ∈ leafBelow search nodes key steps t.id, e ∈ t.contents)
        ∧ (t.entries ≠ [] → leafBelow search nodes key steps t.id ≠ [])
  | 0, parentId, steps + 1, t, h, _, _, _ => by
      have hleaf : leafBelow search nodes key (steps + 1) t.id = t.entries := by
        rw [leafBelow, h.node]
        dsimp only
        rw [isLeaf_of_one, Bool.or_true, if_pos rfl]
      rw [hleaf, UTree.contents_leaf]
      exact ⟨fun _ he => he, fun hne => hne⟩
  | n + 1, parentId, steps + 1, t, h, hsteps, ht, hordered => by
      obtain ⟨es, es', hentries, hposition, -⟩ :=
        split_at_position search key (hordered.sublist ht.linked.entries_sublist)
      obtain ⟨ls, rs, c, haround⟩ := exists_aroundChild ht hentries hposition
      obtain ⟨hsubset, hnonempty⟩ := (h.child haround.child).leafBelow_spec
        (Nat.le_of_succ_le_succ hsteps) haround.sound.top (hordered.sublist haround.sublist)
      rw [haround.leafBelow_eq ht h]
      exact ⟨fun e he => haround.sublist.subset (hsubset e he),
        fun _ => hnonempty haround.sound.1⟩

/-- Below a child between two entries with the key the descent can only end at an entry with
the key. -/
theorem AroundChild.exists_of_between {n steps : Nat} {t : UTree (K × V) (n + 2)}
    {es rest : List (K × V)} {ls rs : List (UTree (K × V) (n + 1))} {c : UTree (K × V) (n + 1)}
    {e e' : K × V} (h : AroundChild search key t es (e' :: rest) ls rs c)
    (hhas : Has nodes t.id c) (hsteps : n + 1 ≤ steps) (hordered : Ordered t.contents)
    (he : e ∈ es) (hkey : e.1 = key) (hkey' : e'.1 = key) :
  ∃ e ∈ leafBelow search nodes key steps c.id, e.1 = key
  := by
  have hls : (ls.map UTree.contents).length = es.length := by rw [List.length_map, h.left]
  have hrs : (e' :: rest).length = (rs.map UTree.contents).length := by
    rw [List.length_map, h.right]
  have hbefore := (sublist_followed hls).subset he
  have hafter := (sublist_preceded hrs).subset List.mem_cons_self
  have hcontents := hordered.sublist h.sublist
  rw [Ordered, h.contents, List.pairwise_append, List.pairwise_append] at hordered
  obtain ⟨hsubset, hnonempty⟩ := hhas.leafBelow_spec hsteps h.sound.top hcontents
  obtain ⟨x, hx⟩ := List.exists_mem_of_ne_nil _ (hnonempty h.sound.1)
  have hle : e.1 ≤ x.1 :=
    hordered.2.2 e hbefore x (List.mem_append_left _ (hsubset x hx))
  have hge : x.1 ≤ e'.1 := hordered.2.1.2.2 x (hsubset x hx) e' hafter
  rw [hkey] at hle
  rw [hkey'] at hge
  exact ⟨x, hx, le_antisymm (α := K) hge hle⟩

/-- An entry of an inner node is out of reach when no search from its node on up passes the
first one with its key. -/
theorem EntryPlace.not_inReach {place : EntryPlace K V}
    (hleaf : ¬ place.node.isLeaf = true)
    (hpassed : ∀ node ∈ place.node :: place.above,
      passesFirst search place.entry.1 node.entries = false) :
  ¬ place.InReach search
  := by
  rintro (h | ⟨node, hin, h⟩)
  · exact hleaf h
  · rw [hpassed node hin] at h
    cases h

/-- Of ordered places around a node's child, with entries before it that are less than a key
and entries after it of which the first one has the key or all are greater, the first place
with the key is among those of the child, or that of the first entry after it. -/
theorem firstWith_around {top : TreeNode K V} {above : List (TreeNode K V)}
    {es es' : List (K × V)} {ls rs : List (List (EntryPlace K V))} {places : List (EntryPlace K V)}
    {place : EntryPlace K V} (hl : ls.length = es.length) (hr : es'.length = rs.length)
    (hordered : Ordered ((followed ls (es.map (fun entry => ⟨top, above, entry⟩))
      ++ (places
        ++ preceded (es'.map (fun entry => ⟨top, above, entry⟩)) rs)).map EntryPlace.entry))
    (hes : ∀ e ∈ es, e.1 < key)
    (hes' : (∀ e ∈ es', key < e.1) ∨ ∃ e rest, es' = e :: rest ∧ e.1 = key)
    (hplace : firstWith key (followed ls (es.map (fun entry => ⟨top, above, entry⟩))
      ++ (places ++ preceded (es'.map (fun entry => ⟨top, above, entry⟩)) rs)) = some place) :
  firstWith key places = some place
    ∨ (∀ e ∈ places.map EntryPlace.entry, e.1 ≠ key) ∧ place.node = top ∧ place.above = above
  := by
  rw [Ordered, List.pairwise_map, List.pairwise_append, List.pairwise_append] at hordered
  obtain ⟨hbefore, ⟨-, hafter, -⟩, -⟩ := hordered
  have hbelow : ∀ e ∈ (followed ls
      (es.map (fun entry => ⟨top, above, entry⟩))).map EntryPlace.entry, e.1 ≠ key := by
    rw [List.forall_mem_map]
    intro p hp
    apply ne_of_lt (α := K)
    refine forall_followed (fun _ _ hle hlt => lt_of_le_of_lt (α := K) hle hlt) ?_ hbefore ?_ p hp
    · rw [List.length_map, hl]
    · rw [List.forall_mem_map]
      exact hes
  rw [firstWith_append hbelow] at hplace
  by_cases hnone : ∀ e ∈ places.map EntryPlace.entry, e.1 ≠ key
  · right
    rw [firstWith_append hnone] at hplace
    refine ⟨hnone, ?_⟩
    rcases hes' with hes' | ⟨e, rest, rfl, hkey⟩
    · exfalso
      obtain ⟨hmem, hkey⟩ := of_firstWith hplace
      apply ne_of_gt (α := K) ?_ hkey
      refine forall_preceded (fun _ _ hle hlt => lt_of_lt_of_le (α := K) hlt hle) ?_ hafter ?_
        place hmem
      · rw [List.length_map, hr]
      · rw [List.forall_mem_map]
        exact hes'
    · cases rs with
      | nil => cases hr
      | cons l rs =>
          rw [List.map_cons, preceded_cons, firstWith, List.find?_cons_of_pos (by simpa using hkey),
            Option.some.injEq] at hplace
          rw [← hplace]
          exact ⟨rfl, rfl⟩
  · left
    rw [← firstWith_eq_none] at hnone
    obtain ⟨first, hfirst⟩ := Option.ne_none_iff_exists'.mp hnone
    rw [firstWith, List.find?_append] at hplace
    rw [firstWith] at hfirst
    rw [hfirst, Option.some_or] at hplace
    rw [firstWith, hfirst, hplace]

/-- The descent comes to an entry with a key of the tree exactly if the first one is in
reach. -/
theorem Has.leafBelow_iff :
  ∀ {n parentId steps : Nat} {t : UTree (K × V) (n + 1)} {above : List (TreeNode K V)}
    {place : EntryPlace K V}, Has nodes parentId t → n + 1 ≤ steps → t.SoundTop →
      Ordered t.contents → (∀ node ∈ above, passesFirst search key node.entries = false) →
        firstWith key (placesBelow nodes steps above t.id) = some place →
          ((∃ e ∈ leafBelow search nodes key steps t.id, e.1 = key) ↔ place.InReach search)
  | 0, parentId, steps + 1, t, above, place, h, _, _, _, _, hplace => by
      obtain ⟨hmem, hkey⟩ := of_firstWith hplace
      rw [placesBelow, h.node] at hmem
      dsimp only at hmem
      rw [UTree.children_leaf] at hmem
      obtain ⟨e, he, rfl⟩ := List.mem_map.mp hmem
      constructor
      · exact fun _ => .inl rfl
      · intro _
        refine ⟨e, ?_, hkey⟩
        rw [leafBelow, h.node]
        dsimp only
        rw [isLeaf_of_one, Bool.or_true, if_pos rfl]
        exact he
  | n + 1, parentId, steps + 1, t, above, place, h, hsteps, ht, hordered, habove, hplace => by
      obtain ⟨hmem, hkey⟩ := of_firstWith hplace
      obtain ⟨top, htop⟩ : ∃ top : TreeNode K V,
          top = ⟨parentId, t.entries, t.children.map (·.id)⟩ := ⟨_, rfl⟩
      have hnode : nodes t.id = some top := htop ▸ h.node
      have hentries : top.entries = t.entries := htop ▸ rfl
      obtain ⟨es, es', hsplit, hposition, hcases⟩ :=
        split_at_position search key (hordered.sublist ht.linked.entries_sublist)
      obtain ⟨ls, rs, c, haround⟩ := exists_aroundChild ht hsplit hposition
      have hc := h.child haround.child
      have hsteps := Nat.le_of_succ_le_succ hsteps
      rw [haround.leafBelow_eq ht h]
      rcases hcases with ⟨hpasses, ⟨e, he, hbefore⟩, e', rest, rfl, hafter⟩
        | ⟨hpasses, hless, hnext⟩
      · have hreach : place.InReach search := by
          refine .inr ⟨top, mem_of_mem_placesBelow hmem (.inl hnode), ?_⟩
          rw [hkey, hentries, hpasses]
        rw [iff_true_right hreach]
        exact haround.exists_of_between hc hsteps hordered he hbefore hafter
      · have hpassed : ∀ node ∈ top :: above, passesFirst search key node.entries = false :=
          List.forall_mem_cons.mpr ⟨hentries ▸ hpasses, habove⟩
        have hplaces :
            Ordered ((placesBelow nodes (steps + 1) above t.id).map EntryPlace.entry) := by
          rw [h.entries_placesBelow above (Nat.succ_le_succ hsteps)]
          exact hordered
        have hordered := hordered.sublist haround.sublist
        rw [haround.placesBelow_eq h above hnode] at hplace hplaces
        obtain hfirst | ⟨hnone, hplaceNode, hplaceAbove⟩ := firstWith_around
          (by rw [List.length_map, haround.left]) (by rw [List.length_map, haround.right])
          hplaces hless hnext hplace
        · exact hc.leafBelow_iff hsteps haround.sound.top hordered hpassed hfirst
        · rw [hc.entries_placesBelow _ hsteps] at hnone
          have hmissed : ¬ ∃ e ∈ leafBelow search nodes key steps c.id, e.1 = key := by
            rintro ⟨e, he, hsame⟩
            have hmem := (hc.leafBelow_spec hsteps haround.sound.top hordered).1 e he
            exact hnone e hmem hsame
          rw [iff_false_left hmissed]
          apply EntryPlace.not_inReach
          · rw [hplaceNode, htop]
            exact not_isLeaf _ _ ht.linked
          · rw [hplaceNode, hplaceAbove, hkey]
            exact hpassed

end Reach

section Lookups

variable {m n next : Nat} {search : EntrySearch K V} {allow : Bool} {key : K}
  {t : UTree (K × V) (n + 1)} {store : NodeStore K V}

/-- Getting a key agrees with the enumeration from the key on: there is an entry exactly if the
first one enumerated has the key, and then it is one of the tree with the key. -/
def LookupAgrees (m : Nat) (search : EntrySearch K V) (allow : Bool) (store : NodeStore K V)
    (key : K) : Prop :=
  ∃ (entry : Option (K × V)) (entries : List (K × V)),
    (memoryTree m search allow).get key store = .ok entry store
    ∧ (memoryTree m search allow).enumerate .ascending
        ((memoryTree m search allow).largerThanOrEqualTo key) (store.walk.length + 1) store
        = .ok entries store
    ∧ (entry.isSome ↔ ∃ e, entries.head? = some e ∧ e.1 = key)
    ∧ ∀ e, entry = some e → e ∈ store.walk ∧ e.1 = key

/-- The first of ordered entries from a key on has the key exactly if there is an entry with
it. -/
theorem head?_filter_iff {entries : List (K × V)} (hordered : Ordered entries) :
  (∃ e, (entries.filter (fun e => key ≤ e.1)).head? = some e ∧ e.1 = key)
    ↔ ∃ e ∈ entries, e.1 = key
  := by
  have hfilter : Ordered (entries.filter (fun e => key ≤ e.1)) :=
    hordered.sublist List.filter_sublist
  constructor
  · rintro ⟨e, hhead, hkey⟩
    exact ⟨e, List.mem_of_mem_filter (List.mem_of_head? hhead), hkey⟩
  · rintro ⟨e, he, rfl⟩
    have hmem : e ∈ entries.filter (fun e' => e.1 ≤ e'.1) :=
      List.mem_filter.mpr ⟨he, decide_eq_true (le_refl (α := K) e.1)⟩
    cases hlist : entries.filter (fun e' => e.1 ≤ e'.1) with
    | nil =>
        rw [hlist] at hmem
        cases hmem
    | cons first rest =>
        refine ⟨first, rfl, ?_⟩
        have hfirst : e.1 ≤ first.1 := by
          have hmem' : first ∈ entries.filter (fun e' => e.1 ≤ e'.1) := by
            rw [hlist]
            exact List.mem_cons_self
          exact of_decide_eq_true (List.mem_filter.mp hmem').2
        rw [hlist] at hmem hfilter
        rcases List.mem_cons.mp hmem with rfl | hrest
        · rfl
        · exact le_antisymm (α := K) ((List.pairwise_cons.mp hfilter).1 e hrest) hfirst

/-- The end of the descent for an insertion into a stored tree. -/
theorem exists_lands (search : EntrySearch K V) (m : Nat) (key : K)
    (hat : At (allCells .root t) t.id next store) (ht : t.SoundTop)
    (hinOrder : InOrder allow t.contents) :
  ∃ (n' : Nat) (path : UPath (K × V) (n' + 1) (n + 1)) (node : UTree (K × V) (n' + 1))
    (result : SearchResult), path.plug node = t ∧ path.Sound ∧ node.SoundTop
    ∧ Lands allow key path node result
    ∧ Yields (At (allCells .root t) t.id next)
        ((memoryTree m search allow).findNodeForInsertion key next t.id) (node.id, result)
        (At (allCells .root t) t.id next)
  := by
  have hnext := hat.joined_lt ht.joined
  apply exists_findNodeForInsertion search allow key m t.id next .root t trivial ht
  · rw [UPath.around_root]
    exact hinOrder
  · exact UPath.root_surrounded _ _
  · exact Nat.lt_of_succ_lt hnext

/-- With duplicate keys the descent ends at the leaf that the key belongs to. -/
theorem leafFor_eq {n' : Nat} {path : UPath (K × V) (n' + 1) (n + 1)}
    {node : UTree (K × V) (n' + 1)} {result : SearchResult}
    (hat : At (allCells .root t) t.id next store) (hplug : path.plug node = t)
    (hfind : Yields (At (allCells .root t) t.id next)
      ((memoryTree m search true).findNodeForInsertion key next t.id) (node.id, result)
      (At (allCells .root t) t.id next)) :
  store.leafFor search key = node.entries ∧ result = search.search node.entries key
  := by
  obtain ⟨store', hok, -⟩ := hfind store hat
  obtain ⟨found, hfound, hleaf, hresult⟩ := find_leafBelow hok
  have hcells : allCells .root t = allCells path node := by rw [← hplug, allCells_plug]
  rw [hat.node_eq (hcells.trans (allCells_eq path node)), Option.some.injEq] at hfound
  subst hfound
  rw [NodeStore.leafFor, hat.rootNode, hat.idCounter]
  exact ⟨hleaf, hresult⟩

/-- The leaf that a key belongs to has an entry with it exactly if the first one of the tree is
in reach. -/
theorem leafFor_iff (hat : At (allCells .root t) t.id next store) (ht : t.SoundTop)
    (hordered : Ordered t.contents) :
  (∃ e ∈ store.leafFor search key, e.1 = key)
    ↔ ∃ place ∈ store.firstPlace key, place.InReach search
  := by
  have hsteps : n + 1 ≤ next := Nat.le_of_lt (hat.joined_lt ht.joined)
  rw [NodeStore.leafFor, NodeStore.firstPlace, hat.rootNode, hat.idCounter]
  dsimp only
  cases hfirst : firstWith key (placesBelow store.nodes next [] t.id) with
  | none =>
      have hnone := firstWith_eq_none.mp hfirst
      rw [hat.has.entries_placesBelow [] hsteps] at hnone
      constructor
      · rintro ⟨e, he, hkey⟩
        exact absurd hkey (hnone e ((hat.has.leafBelow_spec hsteps ht hordered).1 e he))
      · rintro ⟨place, ⟨⟩, -⟩
  | some place =>
      rw [hat.has.leafBelow_iff hsteps ht hordered (fun _ h => by cases h) hfirst]
      simp

/-- Without a first place there is no entry with the key. -/
theorem firstPlace_eq_none (hat : At (allCells .root t) t.id next store) (ht : t.SoundTop) :
  store.firstPlace key = none ↔ ∀ e ∈ t.contents, e.1 ≠ key
  := by
  have hsteps : n + 1 ≤ next := Nat.le_of_lt (hat.joined_lt ht.joined)
  rw [NodeStore.firstPlace, hat.rootNode, hat.idCounter]
  dsimp only
  rw [firstWith_eq_none, hat.has.entries_placesBelow [] hsteps]

/-- Getting a key from a stored tree: with duplicate keys there is an entry if the leaf that
the key belongs to has one, without them if the tree has one. -/
theorem exists_get (search : EntrySearch K V) (m : Nat) (key : K)
    (hat : At (allCells .root t) t.id next store) (ht : t.SoundTop)
    (hinOrder : InOrder allow t.contents) :
  ∃ entry, (memoryTree m search allow).get key store = .ok entry store
    ∧ (∀ e, entry = some e → e ∈ t.contents ∧ e.1 = key)
    ∧ (entry.isSome ↔ ∃ e ∈ (if allow then store.leafFor search key else t.contents), e.1 = key)
  := by
  obtain ⟨n', path, node, result, hplug, hpath, hnode, hlands, hfind⟩ :=
    exists_lands search m key hat ht hinOrder
  have hcontents : t.contents = path.around node.contents := by
    rw [← hplug, hpath.contents_plug]
  have hsublist : node.entries.Sublist t.contents := by
    rw [hcontents]
    exact UPath.entries_sublist hnode
  have hget : ∀ {entry : Option (K × V)},
      Yields (At (allCells .root t) t.id next) ((memoryTree m search allow).get key) entry
        (At (allCells .root t) t.id next) →
      (memoryTree m search allow).get key store = .ok entry store := by
    intro entry hyields
    obtain ⟨store', heq, hat'⟩ := hyields store hat
    rw [heq, hat.unique hat']
  cases result with
  | found i =>
      obtain ⟨-, before, e, after, hentries, hi, hkey⟩ := hlands
      have hmem : e ∈ node.entries := by
        rw [hentries]
        exact List.mem_append_right before List.mem_cons_self
      have hcells : allCells .root t = cell node.id path.parentId (before ++ e :: after)
          (node.children.map (·.id)) + (forest node.id node.children + pathCells path node.id) := by
        rw [← hplug, allCells_plug, allCells_eq, hentries]
      refine ⟨some e, hget ?_, ?_, ?_⟩
      · apply Yields.bind (yields_steps _)
        apply Yields.bind (yields_root _)
        apply Yields.bind hfind
        exact Yields.map some (TreeNode.yields_getEntry hcells (congrArg Nat.cast hi))
      · rintro _ ⟨⟩
        exact ⟨hsublist.subset hmem, hkey⟩
      · constructor
        · intro _
          cases allow with
          | true =>
              rw [if_pos rfl, (leafFor_eq hat hplug hfind).1]
              exact ⟨e, hmem, hkey⟩
          | false => exact ⟨e, hsublist.subset hmem, hkey⟩
        · exact fun _ => rfl
  | missing i =>
      refine ⟨none, hget ?_, ?_, ?_⟩
      · apply Yields.bind (yields_steps _)
        apply Yields.bind (yields_root _)
        apply Yields.bind hfind
        exact Yields.pure _ none
      · rintro _ ⟨⟩
      · constructor
        · rintro ⟨⟩
        · rintro ⟨e, he, hkey⟩
          exfalso
          cases allow with
          | true =>
              obtain ⟨hleaf, hresult⟩ := leafFor_eq hat hplug hfind
              rw [if_pos rfl, hleaf] at he
              obtain ⟨before, after, hentries, -, hbefore, hafter⟩ :=
                EntrySearch.split_of_missing (hinOrder.ordered.sublist hsublist) hresult.symm
              rw [hentries] at he
              rcases List.mem_append.mp he with he | he
              · exact ne_of_lt (hbefore e he) hkey
              · exact ne_of_gt (hafter e he) hkey
          | false =>
              obtain ⟨rfl, before, after, hentries, -, hbefore, hafter⟩ := hlands
              have he : e ∈ t.contents := he
              rw [hcontents, UPath.around, UTree.contents_leaf, hentries, List.append_assoc,
                ← List.append_assoc] at he
              rcases List.mem_append.mp he with he | he
              · exact ne_of_lt (hbefore e he) hkey
              · exact ne_of_gt (hafter e he) hkey

/-- On every B-tree getting a key agrees with the enumeration exactly without duplicate keys,
for a key of no entry, and for a key whose first entry is in reach. -/
theorem IsBTree.lookupAgrees_iff (search : EntrySearch K V) (m : Nat) (key : K)
    (hstore : IsBTree store) (hinOrder : InOrder allow store.walk) :
  LookupAgrees m search allow store key
    ↔ allow = false ∨ ∀ place ∈ store.firstPlace key, place.InReach search
  := by
  obtain ⟨n, next, t, ht, hordered, hat⟩ := hstore
  obtain ⟨henumerate, -⟩ :=
    enumerate_at search m allow key hat ht hordered (Nat.lt_succ_self _)
  rw [LookupAgrees, hat.walk_eq ht.joined, henumerate]
  rw [hat.walk_eq ht.joined] at hinOrder
  obtain ⟨entry, hget, hentry, hsome⟩ := exists_get search m key hat ht hinOrder
  have hinTree : entry.isSome → ∃ e ∈ t.contents, e.1 = key := by
    intro h
    obtain ⟨e, rfl⟩ := Option.isSome_iff_exists.mp h
    exact ⟨e, hentry e rfl⟩
  constructor
  · rintro ⟨entry', entries, hget', hentries, hagree, -⟩
    rw [hget] at hget'
    cases hget'
    cases hentries
    rw [head?_filter_iff hordered] at hagree
    cases allow with
    | false => exact .inl rfl
    | true =>
        by_cases hkey : ∃ e ∈ t.contents, e.1 = key
        · obtain ⟨place, hplace, hreach⟩ :=
            (leafFor_iff hat ht hordered).mp (hsome.mp (hagree.mpr hkey))
          refine .inr fun place' hplace' => ?_
          rw [Option.mem_unique hplace' hplace]
          exact hreach
        · right
          rw [(firstPlace_eq_none hat ht).mpr fun e he hsame => hkey ⟨e, he, hsame⟩]
          rintro place ⟨⟩
  · intro hcondition
    refine ⟨entry, _, hget, rfl, ?_, hentry⟩
    rw [head?_filter_iff hordered]
    refine ⟨hinTree, fun hkey => hsome.mpr ?_⟩
    cases allow with
    | false => exact hkey
    | true =>
        rcases hcondition with hallow | hreach
        · cases hallow
        · apply (leafFor_iff hat ht hordered).mpr
          cases hfirst : store.firstPlace key with
          | none =>
              obtain ⟨e, he, hsame⟩ := hkey
              exact absurd hsame ((firstPlace_eq_none hat ht).mp hfirst e he)
          | some place => exact ⟨place, rfl, hreach place hfirst⟩

/-- Getting a key with entries in two leaves and in the node above them. -/
theorem lookupAgrees_equal :
  LookupAgrees 1 listBinarySearch true equalStore 1
  := by
  have hinOrder : InOrder true equalStore.walk := by decide +kernel
  apply (equalStore_isBTree.lookupAgrees_iff listBinarySearch 1 1 hinOrder).mpr
  right
  decide +kernel

/-- In every B-tree, with duplicate keys or without, getting a key agrees with the
enumeration. -/
def LookupLaw : Prop :=
  ∀ (m : Nat) (allow : Bool) (store : NodeStore Nat Nat) (key : Nat), IsBTree store →
    InOrder allow store.walk → LookupAgrees m listBinarySearch allow store key

/-- Three entries in two leaves and the node above them. -/
def splitStore : NodeStore Nat Nat :=
  Run.final (insertStep 1 listBinarySearch) NodeStore.init [(1, 10), (2, 20), (3, 30)]

theorem splitStore_isBTree :
  IsBTree splitStore
  := by
  have hrun : Run.Along (insertStep 1 listBinarySearch)
      (fun store entry => insertionFindsPlaces 1 listBinarySearch store entry = true)
      NodeStore.init [(1, 10), (2, 20), (3, 30)] :=
    ⟨by decide, by decide, by decide, trivial⟩
  obtain ⟨_, -, hstore⟩ := stores_run (Nat.le_refl 1) (stores_init 1 true) hrun
  exact hstore.isBTree (Nat.le_refl 1)

/-- The key in the node above the leaves is not found when duplicate keys are allowed. -/
theorem not_lookupLaw :
  ¬ LookupLaw
  := by
  intro h
  have hinOrder : InOrder true splitStore.walk := by decide +kernel
  obtain ⟨entry, entries, hget, hentries, hagree, -⟩ :=
    h 1 true splitStore 2 splitStore_isBTree hinOrder
  have hnone : (match (memoryTree 1 listBinarySearch true).get 2 splitStore with
      | .ok entry _ => entry
      | .error _ _ => some (0, 0)) = none := by
    decide +kernel
  have hscan : (match (memoryTree 1 listBinarySearch true).enumerate .ascending
        ((memoryTree 1 listBinarySearch true).largerThanOrEqualTo 2) (splitStore.walk.length + 1)
        splitStore with
      | .ok entries _ => entries
      | .error _ _ => []) = [(2, 20), (3, 30)] := by
    decide +kernel
  rw [hget] at hnone
  rw [hentries] at hscan
  dsimp only at hnone hscan
  rw [hnone, hscan] at hagree
  exact Bool.noConfusion (hagree.mpr ⟨(2, 20), rfl, rfl⟩)

end Lookups

end Datatent.BTree
