import Mathlib.Data.List.TakeDrop

/-!
# Trees of uniform height

A `UTree E n` is a tree of height `n` whose nodes have an id and entries of type `E` between
their children; there is no tree of height `0`, so the children of a node of height `1` are
none, and all leaves are at the same depth. A `UPath E n h` is a tree of height `h` with a hole
for one of height `n`. The contents of a tree are its entries in order, and those of a path
are the entries before and after the hole.
-/

/-- A node with an id, entries and children. -/
structure Branch (E T : Type) where
  id : Nat
  entries : List E
  children : List T

/-- The trees of a height. -/
def UTree (E : Type) : Nat → Type
  | 0 => Empty
  | n + 1 => Branch E (UTree E n)

namespace UTree

variable {E : Type} {n : Nat}

/-- The tree with the given top node. -/
def node (id : Nat) (entries : List E) (children : List (UTree E n)) : UTree E (n + 1) :=
  Branch.mk id entries children

/-- The entries of the top node. -/
def entries (t : UTree E (n + 1)) : List E := Branch.entries t

/-- The children of the top node. -/
def children (t : UTree E (n + 1)) : List (UTree E n) := Branch.children t

/-- The id of the top node. -/
def id : {n : Nat} → UTree E n → Nat
  | 0, t => t.elim
  | _ + 1, t => Branch.id t

@[simp]
theorem id_node (i : Nat) (entries : List E) (children : List (UTree E n)) :
  (node i entries children).id = i
  := rfl

@[simp]
theorem entries_node (i : Nat) (entries : List E) (children : List (UTree E n)) :
  (node i entries children).entries = entries
  := rfl

@[simp]
theorem children_node (i : Nat) (entries : List E) (children : List (UTree E n)) :
  (node i entries children).children = children
  := rfl

@[simp]
theorem node_eta (t : UTree E (n + 1)) :
  node t.id t.entries t.children = t
  := rfl

/-- There are no trees of height zero. -/
theorem eq_nil : ∀ ts : List (UTree E 0), ts = []
  | [] => rfl
  | t :: _ => t.elim

/-- A leaf has no children. -/
theorem children_leaf (t : UTree E 1) :
  t.children = []
  := eq_nil t.children

end UTree

/-! ### Interleaving -/

section Interleave

variable {E : Type}

/-- The entries with the lists before, between and after them; without lists just the
entries. -/
def interleave : List (List E) → List E → List E
  | [], es => es
  | l :: ls, [] => l ++ interleave ls []
  | l :: ls, e :: es => l ++ e :: interleave ls es

/-- Lists each of which is followed by an entry. -/
def followed (ls : List (List E)) (es : List E) : List E :=
  (List.zipWith (fun l e => l ++ [e]) ls es).flatten

/-- Lists each of which is preceded by an entry. -/
def preceded (es : List E) (ls : List (List E)) : List E :=
  (List.zipWith (fun e l => e :: l) es ls).flatten

@[simp]
theorem followed_nil :
  followed ([] : List (List E)) [] = []
  := rfl

@[simp]
theorem preceded_nil :
  preceded ([] : List E) [] = []
  := rfl

@[simp]
theorem preceded_cons (e : E) (es : List E) (l : List E) (ls : List (List E)) :
  preceded (e :: es) (l :: ls) = e :: (l ++ preceded es ls)
  := by
  simp [preceded]

@[simp]
theorem followed_cons (e : E) (es : List E) (l : List E) (ls : List (List E)) :
  followed (l :: ls) (e :: es) = l ++ e :: followed ls es
  := by
  simp [followed]

/-- Lists followed by entries, put together from two parts. -/
theorem followed_append {ls ls' : List (List E)} {es es' : List E}
    (h : ls.length = es.length) :
  followed (ls ++ ls') (es ++ es') = followed ls es ++ followed ls' es'
  := by
  rw [followed, List.zipWith_append h, List.flatten_append]
  rfl

/-- Lists preceded by entries, put together from two parts. -/
theorem preceded_append {ls ls' : List (List E)} {es es' : List E}
    (h : es.length = ls.length) :
  preceded (es ++ es') (ls ++ ls') = preceded es ls ++ preceded es' ls'
  := by
  rw [preceded, List.zipWith_append h, List.flatten_append]
  rfl

/-- One list before the entries with a list after each of them. -/
theorem interleave_cons :
  ∀ {ls : List (List E)} {es : List E} (l : List E), es.length = ls.length →
    interleave (l :: ls) es = l ++ preceded es ls
  | [], [], l, _ => by simp [interleave]
  | l' :: ls, e :: es, l, h => by
      rw [List.length_cons, List.length_cons, Nat.add_right_cancel_iff] at h
      rw [interleave, interleave_cons l' h, preceded_cons]

/-- The entries around one of the lists. -/
theorem interleave_append :
  ∀ {ls rs : List (List E)} {es es' : List E} (l : List E), ls.length = es.length →
    es'.length = rs.length →
      interleave (ls ++ l :: rs) (es ++ es') = followed ls es ++ (l ++ preceded es' rs)
  | [], rs, [], es', l, _, h' => interleave_cons l h'
  | l' :: ls, rs, e :: es, es', l, h, h' => by
      rw [List.length_cons, List.length_cons, Nat.add_right_cancel_iff] at h
      rw [List.cons_append, List.cons_append, interleave, interleave_append l h h',
        followed_cons]
      simp

/-- The images of interleaved lists. -/
theorem map_interleave {F : Type} (f : E → F) :
  ∀ (ls : List (List E)) (es : List E),
    (interleave ls es).map f = interleave (ls.map (List.map f)) (es.map f)
  | [], _ => rfl
  | l :: ls, [] => by
      rw [interleave, List.map_append, map_interleave f ls []]
      rfl
  | l :: ls, e :: es => by
      rw [interleave, List.map_append, List.map_cons, map_interleave f ls es]
      rfl

/-- What is in interleaved lists is one of the entries or in one of the lists. -/
theorem mem_interleave {x : E} :
  ∀ {ls : List (List E)} {es : List E}, x ∈ interleave ls es → x ∈ es ∨ ∃ l ∈ ls, x ∈ l
  | [], es, hx => .inl hx
  | l :: ls, [], hx => by
      rcases List.mem_append.mp hx with hx | hx
      · exact .inr ⟨l, List.mem_cons_self, hx⟩
      · obtain hx | ⟨l', hl', hx⟩ := mem_interleave hx
        · exact .inl hx
        · exact .inr ⟨l', List.mem_cons_of_mem l hl', hx⟩
  | l :: ls, e :: es, hx => by
      rcases List.mem_append.mp hx with hx | hx
      · exact .inr ⟨l, List.mem_cons_self, hx⟩
      · rcases List.mem_cons.mp hx with rfl | hx
        · exact .inl List.mem_cons_self
        · obtain hx | ⟨l', hl', hx⟩ := mem_interleave hx
          · exact .inl (List.mem_cons_of_mem e hx)
          · exact .inr ⟨l', List.mem_cons_of_mem l hl', hx⟩

/-- What holds of the entries and of all that come before such an element holds of all lists
followed by them. -/
theorem forall_followed {r : E → E → Prop} {P : E → Prop} (hP : ∀ a b, r a b → P b → P a) :
  ∀ {ls : List (List E)} {es : List E}, ls.length = es.length →
    (followed ls es).Pairwise r → (∀ e ∈ es, P e) → ∀ x ∈ followed ls es, P x
  | [], [], _, _, _, _, hx => absurd hx List.not_mem_nil
  | l :: ls, e :: es, hlength, hpairwise, hes, x, hx => by
      rw [followed_cons] at hpairwise hx
      rw [List.pairwise_append] at hpairwise
      rw [List.mem_append, List.mem_cons] at hx
      rcases hx with hx | rfl | hx
      · exact hP x e (hpairwise.2.2 x hx e List.mem_cons_self) (hes e List.mem_cons_self)
      · exact hes x List.mem_cons_self
      · apply forall_followed hP (Nat.succ.inj hlength) hpairwise.2.1.of_cons _ x hx
        exact fun e' he' => hes e' (List.mem_cons_of_mem e he')

/-- What holds of the entries and of all that come after such an element holds of all lists
preceded by them. -/
theorem forall_preceded {r : E → E → Prop} {P : E → Prop} (hP : ∀ a b, r a b → P a → P b) :
  ∀ {es : List E} {ls : List (List E)}, es.length = ls.length →
    (preceded es ls).Pairwise r → (∀ e ∈ es, P e) → ∀ x ∈ preceded es ls, P x
  | [], [], _, _, _, _, hx => absurd hx List.not_mem_nil
  | e :: es, l :: ls, hlength, hpairwise, hes, x, hx => by
      rw [preceded_cons] at hpairwise hx
      rw [List.pairwise_cons, List.pairwise_append] at hpairwise
      rw [List.mem_cons, List.mem_append] at hx
      rcases hx with rfl | hx | hx
      · exact hes x List.mem_cons_self
      · exact hP e x (hpairwise.1 x (List.mem_append_left _ hx)) (hes e List.mem_cons_self)
      · apply forall_preceded hP (Nat.succ.inj hlength) hpairwise.2.2.1 _ x hx
        exact fun e' he' => hes e' (List.mem_cons_of_mem e he')

/-- The entries are among those of the lists followed by them. -/
theorem sublist_followed :
  ∀ {ls : List (List E)} {es : List E}, ls.length = es.length → es.Sublist (followed ls es)
  | [], [], _ => List.Sublist.refl _
  | l :: ls, e :: es, h => by
      rw [followed_cons]
      exact ((sublist_followed (Nat.succ.inj h)).cons_cons e).trans
        (List.sublist_append_right l _)

/-- The entries are among those of the lists preceded by them. -/
theorem sublist_preceded :
  ∀ {es : List E} {ls : List (List E)}, es.length = ls.length → es.Sublist (preceded es ls)
  | [], [], _ => List.Sublist.refl _
  | e :: es, l :: ls, h => by
      rw [preceded_cons]
      exact ((sublist_preceded (Nat.succ.inj h)).trans (List.sublist_append_right l _)).cons_cons
        e

end Interleave

/-! ### Contents -/

namespace UTree

variable {E : Type}

/-- The entries of a tree in order. -/
def contents : {n : Nat} → UTree E n → List E
  | 0, t => t.elim
  | _ + 1, t => interleave (t.children.map contents) t.entries

/-- The contents of a node are those of its children and its entries between them. -/
theorem contents_eq {n : Nat} (t : UTree E (n + 1)) :
  t.contents = interleave (t.children.map contents) t.entries
  := rfl

/-- The contents of a leaf are its entries. -/
theorem contents_leaf (t : UTree E 1) :
  t.contents = t.entries
  := by
  rw [contents_eq, children_leaf]
  rfl

/-- The contents of a node around one of its children. -/
theorem contents_node {n id : Nat} {es es' : List E} {ls rs : List (UTree E n)}
    (c : UTree E n) (h : ls.length = es.length) (h' : es'.length = rs.length) :
  (node id (es ++ es') (ls ++ c :: rs)).contents
    = followed (ls.map contents) es ++ (c.contents ++ preceded es' (rs.map contents))
  := by
  rw [contents_eq, children_node, entries_node, List.map_append, List.map_cons,
    interleave_append]
  · rw [List.length_map]
    exact h
  · rw [List.length_map]
    exact h'

/-- The contents of a node around two of its children and the entry between them. -/
theorem contents_pair {n id : Nat} {es es' : List E} {e : E} {ls rs : List (UTree E n)}
    (l r : UTree E n) (h : ls.length = es.length) (h' : es'.length = rs.length) :
  (node id (es ++ e :: es') (ls ++ l :: r :: rs)).contents
    = followed (ls.map contents) es
      ++ ((l.contents ++ e :: r.contents) ++ preceded es' (rs.map contents))
  := by
  have hr : (e :: es').length = (r :: rs).length := by rw [List.length_cons, List.length_cons, h']
  rw [contents_node l h hr, List.map_cons, preceded_cons, List.append_assoc, List.cons_append]

/-- A node has one child more than entries, if it is not a leaf. -/
def Linked {n : Nat} (t : UTree E (n + 1)) : Prop :=
  n ≠ 0 → t.children.length = t.entries.length + 1

/-- A linked node that is not a leaf has a child at every position of its entries. -/
theorem Linked.exists_child {n : Nat} {t : UTree E (n + 2)} (ht : t.Linked) {es es' : List E}
    (hentries : t.entries = es ++ es') :
  ∃ ls c rs, t = node t.id (es ++ es') (ls ++ c :: rs) ∧ ls.length = es.length
    ∧ es'.length = rs.length
  := by
  have hlength := ht (Nat.succ_ne_zero n)
  rw [hentries, List.length_append] at hlength
  have hi : es.length < t.children.length := by omega
  refine ⟨t.children.take es.length, t.children[es.length], t.children.drop (es.length + 1),
    ?_, ?_, ?_⟩
  · rw [List.getElem_cons_drop, List.take_append_drop, ← hentries, node_eta]
  · rw [List.length_take]
    omega
  · rw [List.length_drop]
    omega

/-- The entries of the top node are among the contents. -/
theorem Linked.entries_sublist :
  ∀ {n : Nat} {t : UTree E (n + 1)}, t.Linked → t.entries.Sublist t.contents
  | 0, t, _ => (contents_leaf t).symm ▸ List.Sublist.refl t.entries
  | n + 1, t, ht => by
      obtain ⟨ls, c, rs, heq, hl, hr⟩ := ht.exists_child (List.nil_append t.entries).symm
      obtain rfl := List.eq_nil_of_length_eq_zero hl
      have hr' : t.entries.length = (rs.map contents).length := by rw [List.length_map, hr]
      rw [heq, contents_node c hl hr]
      exact (sublist_preceded hr').trans (List.sublist_append_right c.contents _)

/-- Every node of the tree has between `m` and `2 * m` entries and is linked. -/
def Full (m : Nat) : {n : Nat} → UTree E n → Prop
  | 0, t => t.elim
  | _ + 1, t => m ≤ t.entries.length ∧ t.entries.length ≤ 2 * m ∧ t.Linked
      ∧ ∀ c ∈ t.children, Full m c

/-- The top node is linked and its children are full. -/
structure Grown (m : Nat) {n : Nat} (t : UTree E (n + 1)) : Prop where
  linked : t.Linked
  full : ∀ c ∈ t.children, c.Full m

/-- Every node of the tree is linked. -/
def Joined : {n : Nat} → UTree E n → Prop
  | 0, t => t.elim
  | _ + 1, t => t.Linked ∧ ∀ c ∈ t.children, Joined c

/-- Full trees are linked everywhere. -/
theorem Full.joined {m : Nat} :
  ∀ {n : Nat} {t : UTree E n}, t.Full m → t.Joined
  | 0, t, _ => t.elim
  | _ + 1, _, h => ⟨h.2.2.1, fun c hc => Full.joined (h.2.2.2 c hc)⟩

theorem Grown.joined {m n : Nat} {t : UTree E (n + 1)} (h : t.Grown m) :
  t.Joined
  := ⟨h.linked, fun c hc => (h.full c hc).joined⟩

/-- The contents of a node put together from two nodes with an entry between them. -/
theorem contents_join {n : Nat} {es es' : List E} {ls rs : List (UTree E n)} (id id' id'' : Nat)
    (e : E) (hl : n ≠ 0 → ls.length = es.length + 1) (hr : n ≠ 0 → rs.length = es'.length + 1) :
  (node id (es ++ e :: es') (ls ++ rs)).contents
    = (node id' es ls).contents ++ e :: (node id'' es' rs).contents
  := by
  cases n with
  | zero => simp only [contents_leaf, entries_node]
  | succ n =>
      obtain ⟨l, ls, rfl⟩ := List.exists_cons_of_length_eq_add_one (hl (Nat.succ_ne_zero n))
      obtain ⟨r, rs, rfl⟩ := List.exists_cons_of_length_eq_add_one (hr (Nat.succ_ne_zero n))
      simp only [List.length_cons, Nat.add_right_cancel_iff] at hl hr
      have hl := hl (Nat.succ_ne_zero n)
      have hr := hr (Nat.succ_ne_zero n)
      simp only [contents_eq, children_node, entries_node, List.map_append, List.map_cons,
        List.cons_append]
      rw [interleave_cons, interleave_cons, interleave_cons, preceded_append, preceded_cons,
        List.append_assoc]
      · simp [hl]
      · simp [hr]
      · simp [hl]
      · simp [hl, hr]

/-- A grown tree is full when its top node has enough and not too many entries. -/
theorem full_iff {m n : Nat} {t : UTree E (n + 1)} :
  t.Full m ↔ m ≤ t.entries.length ∧ t.entries.length ≤ 2 * m ∧ t.Grown m
  := by
  constructor
  · rintro ⟨hle, hge, hlinked, hfull⟩
    exact ⟨hle, hge, hlinked, hfull⟩
  · rintro ⟨hle, hge, hlinked, hfull⟩
    exact ⟨hle, hge, hlinked, hfull⟩

/-- Two trees whose top nodes are the halves of a node with one entry too many, and the entry
between them. -/
structure Halves (m : Nat) {n : Nat} (t l r : UTree E (n + 1)) (e : E) : Prop where
  entries : t.entries = l.entries ++ e :: r.entries
  children : t.children = l.children ++ r.children
  left : l.Full m
  right : r.Full m
  leftLength : l.entries.length = m
  rightLength : r.entries.length = m

/-- The contents of a node in terms of its halves. -/
theorem Halves.contents {m n : Nat} {t l r : UTree E (n + 1)} {e : E} (h : Halves m t l r e) :
  t.contents = l.contents ++ e :: r.contents
  := by
  have hjoin := contents_join t.id l.id r.id e h.left.2.2.1 h.right.2.2.1
  rw [← h.entries, ← h.children] at hjoin
  exact hjoin

/-- A node with `m` entries and one child more is full when its children are. -/
theorem full_node {m n id : Nat} {es : List E} {ts : List (UTree E n)} (hes : es.length = m)
    (hts : n ≠ 0 → ts.length = m + 1) (hfull : ∀ c ∈ ts, c.Full m) :
  (node id es ts).Full m
  := by
  refine ⟨Nat.le_of_eq hes.symm, ?_, ?_, hfull⟩
  · rw [entries_node]
    omega
  · intro hn
    rw [children_node, entries_node, hts hn, hes]

/-- The first entry of a node, and its first child if there are children. -/
theorem Linked.exists_first {n : Nat} {t : UTree E (n + 1)} (ht : t.Linked)
    (hpos : 0 < t.entries.length) :
  ∃ first tail children rest, t.entries = first :: tail ∧ t.children = children ++ rest
    ∧ (n ≠ 0 → ∃ c, children = [c])
  := by
  obtain ⟨first, tail, hentries⟩ := List.exists_cons_of_length_pos hpos
  cases n with
  | zero => exact ⟨first, tail, [], t.children, hentries, rfl, fun h => absurd rfl h⟩
  | succ n =>
      have hlength := ht (Nat.succ_ne_zero n)
      obtain ⟨c, rest, hchildren⟩ := List.exists_cons_of_length_eq_add_one hlength
      exact ⟨first, tail, [c], rest, hentries, hchildren, fun _ => ⟨c, rfl⟩⟩

/-- The last entry of a node, and its last child if there are children. -/
theorem Linked.exists_last {n : Nat} {t : UTree E (n + 1)} (ht : t.Linked)
    (hpos : 0 < t.entries.length) :
  ∃ init last rest children, t.entries = init ++ [last] ∧ t.children = rest ++ children
    ∧ (n ≠ 0 → ∃ c, children = [c])
  := by
  obtain ⟨init, last, hentries⟩ :=
    (List.eq_nil_or_concat t.entries).resolve_left (List.ne_nil_of_length_pos hpos)
  rw [List.concat_eq_append] at hentries
  cases n with
  | zero =>
      exact ⟨init, last, t.children, [], hentries, (List.append_nil _).symm,
        fun h => absurd rfl h⟩
  | succ n =>
      have hlength := ht (Nat.succ_ne_zero n)
      obtain ⟨rest, c, hchildren⟩ := (List.eq_nil_or_concat t.children).resolve_left
        (List.ne_nil_of_length_eq_add_one hlength)
      rw [List.concat_eq_append] at hchildren
      exact ⟨init, last, rest, [c], hentries, hchildren, fun _ => ⟨c, rfl⟩⟩

section Rotation

variable {m n : Nat} {l r : UTree E (n + 1)} {children rest : List (UTree E n)}

/-- A node with too few entries takes the separator and the first child of its right
neighbour, whose first entry becomes the separator. -/
theorem Grown.rotateLeft {first : E} {tail : List E} (hl : l.Grown m) (hr : r.Full m)
    (hunder : l.entries.length + 1 = m) (hspare : m < r.entries.length)
    (hentries : r.entries = first :: tail) (hsplit : r.children = children ++ rest)
    (hchildren : n ≠ 0 → ∃ c, children = [c]) (e : E) :
  (node l.id (l.entries ++ [e]) (l.children ++ children)).Full m ∧ (node r.id tail rest).Full m
    ∧ (node l.id (l.entries ++ [e]) (l.children ++ children)).contents
        ++ first :: (node r.id tail rest).contents
      = l.contents ++ e :: r.contents
  := by
  obtain ⟨-, hmost, hlinked, hfull⟩ := hr
  have hone : n ≠ 0 → children.length = 1 := by
    intro hn
    obtain ⟨c, rfl⟩ := hchildren hn
    rfl
  have hrest : n ≠ 0 → rest.length = tail.length + 1 := by
    intro hn
    have hlength := hlinked hn
    rw [hentries, hsplit, List.length_append, hone hn, List.length_cons] at hlength
    omega
  rw [hsplit] at hfull
  rw [hentries, List.length_cons] at hspare hmost
  refine ⟨?_, ⟨?_, ?_, hrest, ?_⟩, ?_⟩
  · apply full_node
    · rw [List.length_append, List.length_singleton, hunder]
    · intro hn
      rw [List.length_append, hl.linked hn, hone hn]
      omega
    · intro c hc
      rcases List.mem_append.mp hc with hc | hc
      · exact hl.full c hc
      · exact hfull c (List.mem_append_left rest hc)
  · rw [entries_node]
    omega
  · rw [entries_node]
    omega
  · exact fun c hc => hfull c (List.mem_append_right children hc)
  · have hmoved : n ≠ 0 → children.length = ([] : List E).length + 1 := hone
    have hleft := contents_join l.id l.id 0 e hl.linked hmoved
    have hright := contents_join r.id 0 r.id first hmoved hrest
    rw [List.nil_append, ← hentries, ← hsplit] at hright
    rw [hleft, List.append_assoc, List.cons_append, ← hright, node_eta, node_eta]

/-- A node with too few entries takes the separator and the last child of its left neighbour,
whose last entry becomes the separator. -/
theorem Grown.rotateRight {init : List E} {last : E} (hr : r.Grown m) (hl : l.Full m)
    (hunder : r.entries.length + 1 = m) (hspare : m < l.entries.length)
    (hentries : l.entries = init ++ [last]) (hsplit : l.children = rest ++ children)
    (hchildren : n ≠ 0 → ∃ c, children = [c]) (e : E) :
  (node l.id init rest).Full m ∧ (node r.id (e :: r.entries) (children ++ r.children)).Full m
    ∧ (node l.id init rest).contents
        ++ last :: (node r.id (e :: r.entries) (children ++ r.children)).contents
      = l.contents ++ e :: r.contents
  := by
  obtain ⟨-, hmost, hlinked, hfull⟩ := hl
  have hone : n ≠ 0 → children.length = 1 := by
    intro hn
    obtain ⟨c, rfl⟩ := hchildren hn
    rfl
  have hrest : n ≠ 0 → rest.length = init.length + 1 := by
    intro hn
    have hlength := hlinked hn
    rw [hentries, hsplit, List.length_append, hone hn, List.length_append,
      List.length_singleton] at hlength
    omega
  rw [hsplit] at hfull
  rw [hentries, List.length_append, List.length_singleton] at hspare hmost
  refine ⟨⟨?_, ?_, hrest, ?_⟩, ?_, ?_⟩
  · rw [entries_node]
    omega
  · rw [entries_node]
    omega
  · exact fun c hc => hfull c (List.mem_append_left children hc)
  · apply full_node
    · rw [List.length_cons, hunder]
    · intro hn
      rw [List.length_append, hr.linked hn, hone hn]
      omega
    · intro c hc
      rcases List.mem_append.mp hc with hc | hc
      · exact hfull c (List.mem_append_right rest hc)
      · exact hr.full c hc
  · have hmoved : n ≠ 0 → children.length = ([] : List E).length + 1 := hone
    have hleft := contents_join l.id l.id 0 last hrest hmoved
    have hright := contents_join r.id 0 r.id e hmoved hr.linked
    rw [← hentries, ← hsplit] at hleft
    rw [List.nil_append] at hright
    rw [hright, ← List.cons_append, ← List.append_assoc, ← hleft, node_eta, node_eta]

end Rotation

/-- Two trees joined to one node around an entry. -/
def joined {n : Nat} (l r : UTree E (n + 1)) (e : E) : UTree E (n + 1) :=
  node l.id (l.entries ++ e :: r.entries) (l.children ++ r.children)

/-- The contents of two trees joined around an entry. -/
theorem contents_joined {n : Nat} {l r : UTree E (n + 1)} (hl : l.Linked) (hr : r.Linked) (e : E) :
  (joined l r e).contents = l.contents ++ e :: r.contents
  := contents_join l.id l.id r.id e hl hr

/-- Two trees with together one entry less than twice the minimal number, joined around an
entry, are full. -/
theorem full_joined {m n : Nat} {l r : UTree E (n + 1)} (hl : l.Grown m) (hr : r.Grown m) (e : E)
    (hlength : l.entries.length + r.entries.length + 1 = 2 * m) :
  (joined l r e).Full m
  := by
  refine ⟨?_, ?_, ?_, ?_⟩
  · rw [joined, entries_node, List.length_append, List.length_cons]
    omega
  · rw [joined, entries_node, List.length_append, List.length_cons]
    omega
  · intro hn
    rw [joined, entries_node, children_node, List.length_append, List.length_append,
      List.length_cons, hl.linked hn, hr.linked hn]
    omega
  · intro c hc
    rw [joined, children_node, List.mem_append] at hc
    rcases hc with hc | hc
    · exact hl.full c hc
    · exact hr.full c hc

/-- A grown tree whose top node has one entry too many has halves. -/
theorem Grown.exists_halves {m n : Nat} {t : UTree E (n + 1)} (ht : t.Grown m)
    (hover : t.entries.length = 2 * m + 1) (id id' : Nat) :
  ∃ l r e, Halves m t l r e ∧ l.id = id ∧ r.id = id'
  := by
  have hm : m < t.entries.length := by omega
  have hleft : (t.entries.take m).length = m := by
    rw [List.length_take]
    omega
  have hright : (t.entries.drop (m + 1)).length = m := by
    rw [List.length_drop]
    omega
  refine ⟨node id (t.entries.take m) (t.children.take (m + 1)),
    node id' (t.entries.drop (m + 1)) (t.children.drop (m + 1)), t.entries[m],
    ⟨?_, ?_, ?_, ?_, hleft, hright⟩, rfl, rfl⟩
  · rw [entries_node, entries_node, List.getElem_cons_drop, List.take_append_drop]
  · rw [children_node, children_node, List.take_append_drop]
  · apply full_node hleft
    · intro hn
      rw [List.length_take, ht.linked hn]
      omega
    · intro c hc
      exact ht.full c (List.mem_of_mem_take hc)
  · apply full_node hright
    · intro hn
      rw [List.length_drop, ht.linked hn]
      omega
    · intro c hc
      exact ht.full c (List.mem_of_mem_drop hc)

end UTree

/-! ### Paths -/

/-- A tree of height `h` with a hole for a tree of height `n`: the entries and the children of
a node before and after the hole, and the path above the node. -/
inductive UPath (E : Type) : Nat → Nat → Type where
  | root {n : Nat} : UPath E n n
  | down {n h : Nat} (above : UPath E (n + 1) h) (id : Nat) (before after : List E)
      (left right : List (UTree E n)) : UPath E n h

namespace UPath

variable {E : Type} {n h : Nat}

/-- The id of the node above the hole; `0` if there is none. -/
def parentId : {n : Nat} → UPath E n h → Nat
  | _, root => 0
  | _, down _ id _ _ _ _ => id

/-- The id of the top node, with the given id of the node in the hole. -/
def rootId : {n : Nat} → UPath E n h → Nat → Nat
  | _, root, focus => focus
  | _, down above id _ _ _ _, _ => above.rootId id

/-- The number of nodes above the hole. -/
def length : {n : Nat} → UPath E n h → Nat
  | _, root => 0
  | _, down above _ _ _ _ _ => above.length + 1

/-- A path is as long as the difference of the heights. -/
theorem length_add : ∀ {n : Nat} (path : UPath E n h), path.length + n = h
  | _, root => Nat.zero_add _
  | n, down above _ _ _ _ _ => by
      rw [length, Nat.add_assoc, Nat.add_comm 1 n]
      exact length_add above

/-- The entries before the hole. -/
def before : {n : Nat} → UPath E n h → List E
  | _, root => []
  | _, down above _ es _ ls _ => above.before ++ followed (ls.map UTree.contents) es

/-- The entries after the hole. -/
def after : {n : Nat} → UPath E n h → List E
  | _, root => []
  | _, down above _ _ es _ rs => preceded es (rs.map UTree.contents) ++ above.after

/-- The entries of the tree that has the given contents in the hole. -/
def around (path : UPath E n h) (contents : List E) : List E :=
  path.before ++ (contents ++ path.after)

@[simp]
theorem around_root (contents : List E) :
  (root : UPath E n n).around contents = contents
  := by
  rw [around, before, after, List.nil_append, List.append_nil]

/-- The least number of entries of a node in the hole: none for a leaf at the top, one for
another node at the top. -/
def least (m : Nat) : {n : Nat} → UPath E n h → Nat
  | n, root => min 1 (n - 1)
  | _, down _ _ _ _ _ _ => m

/-- A node that is not a leaf has at least one entry. -/
theorem one_le_least {m : Nat} (path : UPath E (n + 2) h) (hm : 1 ≤ m) :
  1 ≤ path.least m
  := by
  cases path with
  | root =>
      rw [least]
      omega
  | down above id es es' ls rs => exact hm

/-- A node below another one has at least `m` entries. -/
theorem least_eq {m : Nat} {path : UPath E n h} (hlength : path.length ≠ 0) :
  path.least m = m
  := by
  cases path with
  | root => exact absurd rfl hlength
  | down above id es es' ls rs => rfl

/-- Every node of the tree but that in the hole is linked and has enough and not too many
entries. -/
def Full (m : Nat) : {n : Nat} → UPath E n h → Prop
  | _, root => True
  | _, down above _ es es' ls rs => ls.length = es.length ∧ es'.length = rs.length
      ∧ above.least m ≤ es.length + es'.length ∧ es.length + es'.length ≤ 2 * m
      ∧ (∀ c ∈ ls, UTree.Full m c) ∧ (∀ c ∈ rs, UTree.Full m c) ∧ above.Full m

/-- A tree in the hole is grown and its top node has enough and not too many entries. -/
def Fits (m : Nat) : {n : Nat} → UPath E n h → UTree E n → Prop
  | 0, _, t => t.elim
  | _ + 1, path, t =>
      path.least m ≤ t.entries.length ∧ t.entries.length ≤ 2 * m ∧ t.Grown m

/-- The entries around the hole of a path one node down are those around the node. -/
theorem around_down (above : UPath E (n + 1) h) (id : Nat) {es es' : List E}
    {ls rs : List (UTree E n)} (c : UTree E n) (hl : ls.length = es.length)
    (hr : es'.length = rs.length) :
  (down above id es es' ls rs).around c.contents
    = above.around (UTree.node id (es ++ es') (ls ++ c :: rs)).contents
  := by
  rw [UTree.contents_node c hl hr]
  simp only [around, before, after, List.append_assoc]

/-- The entries around the hole with those of two trees and an entry between them are those
around the node above. -/
theorem around_pair (above : UPath E (n + 1) h) (id : Nat) {es es' : List E} (e : E)
    {ls rs : List (UTree E n)} (l r : UTree E n) (hl : ls.length = es.length)
    (hr : es'.length = rs.length) :
  (down above id es es' ls rs).around (l.contents ++ e :: r.contents)
    = above.around (UTree.node id (es ++ e :: es') (ls ++ l :: r :: rs)).contents
  := by
  rw [UTree.contents_pair l r hl hr]
  simp only [around, before, after, List.append_assoc]

/-- The tree with a tree put into the hole. -/
def plug : {n : Nat} → UPath E n h → UTree E n → UTree E h
  | _, root, t => t
  | _, down above id es es' ls rs, t => above.plug (UTree.node id (es ++ es') (ls ++ t :: rs))

theorem id_plug :
  ∀ {n : Nat} (path : UPath E n h) (t : UTree E n), (path.plug t).id = path.rootId t.id
  | _, root, _ => rfl
  | _, down above _ _ _ _ _, _ => id_plug above _

/-- The contents of the tree with a tree put into the hole. -/
theorem contents_plug {m : Nat} :
  ∀ {n : Nat} {path : UPath E n h} (t : UTree E n), path.Full m →
    (path.plug t).contents = path.around t.contents
  | _, root, t, _ => (around_root t.contents).symm
  | _, down above id es es' ls rs, t, hfull => by
      rw [around_down above id t hfull.1 hfull.2.1]
      exact contents_plug _ hfull.2.2.2.2.2.2

end UPath

namespace UTree

variable {E : Type}

/-- The tree is a root: its top node is linked and has not too many entries, at least one if
it is not a leaf, and its children are full. -/
def Rooted (m : Nat) {n : Nat} (t : UTree E n) : Prop :=
  UPath.root.Fits m t

end UTree

namespace UPath

variable {E : Type} {n h m : Nat}

/-- A fitting tree below another node is full. -/
theorem Fits.full :
  ∀ {n : Nat} {above : UPath E (n + 1) h} {id : Nat} {es es' : List E}
    {ls rs : List (UTree E n)} {t : UTree E n}, (down above id es es' ls rs).Fits m t →
      t.Full m
  | 0, _, _, _, _, _, _, t, _ => t.elim
  | _ + 1, _, _, _, _, _, _, _, ht => UTree.full_iff.mpr ht

/-- A node with full children around the hole fits with a full tree in the hole. -/
theorem Full.node_fits {above : UPath E (n + 1) h} {id : Nat} {es es' : List E}
    {ls rs : List (UTree E n)} {t : UTree E n} (hfull : (down above id es es' ls rs).Full m)
    (ht : t.Full m) :
  above.Fits m (UTree.node id (es ++ es') (ls ++ t :: rs))
  := by
  obtain ⟨hl, hr, hleast, hmost, hls, hrs, -⟩ := hfull
  refine ⟨?_, ?_, ?_, ?_⟩
  · rw [UTree.entries_node, List.length_append]
    exact hleast
  · rw [UTree.entries_node, List.length_append]
    exact hmost
  · intro _
    rw [UTree.entries_node, UTree.children_node, List.length_append, List.length_append,
      List.length_cons]
    omega
  · intro c hc
    rw [UTree.children_node, List.mem_append, List.mem_cons] at hc
    rcases hc with hc | rfl | hc
    · exact hls c hc
    · exact ht
    · exact hrs c hc

/-- Below a node that fits, the path goes on and the child in its hole is full. -/
theorem Fits.below {above : UPath E (n + 1) h} {id : Nat} {es es' : List E}
    {ls rs : List (UTree E n)} {c : UTree E n}
    (hfits : above.Fits m (UTree.node id (es ++ es') (ls ++ c :: rs))) (habove : above.Full m)
    (hl : ls.length = es.length) (hr : es'.length = rs.length) :
  (down above id es es' ls rs).Full m ∧ c.Full m
  := by
  obtain ⟨hleast, hmost, -, hfull⟩ := hfits
  rw [UTree.entries_node, List.length_append] at hleast hmost
  rw [UTree.children_node] at hfull
  refine ⟨⟨hl, hr, hleast, hmost, ?_, ?_, habove⟩, ?_⟩
  · exact fun c hc => hfull c (List.mem_append_left _ hc)
  · exact fun c hc => hfull c (List.mem_append_right _ (List.mem_cons_of_mem _ hc))
  · exact hfull c (List.mem_append_right _ List.mem_cons_self)

/-- A node that fits and is not a leaf has entries. -/
theorem Fits.entries_ne_nil {path : UPath E (n + 2) h} {t : UTree E (n + 2)}
    (hfits : path.Fits m t) (hm : 1 ≤ m) :
  t.entries ≠ []
  := by
  exact List.ne_nil_of_length_pos (Nat.lt_of_lt_of_le (path.one_le_least hm) hfits.1)

/-- A full tree fits below another node. -/
theorem full_fits :
  ∀ {n : Nat} {above : UPath E (n + 1) h} {id : Nat} {es es' : List E}
    {ls rs : List (UTree E n)} {t : UTree E n}, t.Full m → (down above id es es' ls rs).Fits m t
  | 0, _, _, _, _, _, _, t, _ => t.elim
  | _ + 1, _, _, _, _, _, _, _, ht => UTree.full_iff.mp ht

/-- A node with two full trees and an entry between them around the hole is grown. -/
theorem Full.pair_grown {above : UPath E (n + 1) h} {id : Nat} {es es' : List E}
    {ls rs : List (UTree E n)} (hfull : (down above id es es' ls rs).Full m)
    {l r : UTree E n} (hl : l.Full m) (hr : r.Full m) (e : E) :
  (UTree.node id (es ++ e :: es') (ls ++ l :: r :: rs)).Grown m
  := by
  obtain ⟨hls, hrs, -, -, hfullls, hfullrs, -⟩ := hfull
  constructor
  · intro _
    simp only [UTree.entries_node, UTree.children_node, List.length_append, List.length_cons]
    omega
  · intro c hc
    simp only [UTree.children_node, List.mem_append, List.mem_cons] at hc
    rcases hc with hc | rfl | rfl | hc
    · exact hfullls c hc
    · exact hl
    · exact hr
    · exact hfullrs c hc

/-- The node with the given entries and children around two neighbouring children and the
entry between them has enough and not too many entries, and so have all nodes around. -/
structure Neighbours (m : Nat) (above : UPath E (n + 1) h) (es es' : List E)
    (ls rs : List (UTree E n)) : Prop where
  left : ls.length = es.length
  right : es'.length = rs.length
  least : above.least m ≤ es.length + es'.length + 1
  most : es.length + es'.length + 1 ≤ 2 * m
  fullLeft : ∀ c ∈ ls, c.Full m
  fullRight : ∀ c ∈ rs, c.Full m
  fullAbove : above.Full m

section Neighbours

variable {above : UPath E (n + 1) h} {es es' : List E} {ls rs : List (UTree E n)}
  {l r : UTree E n} {e : E} {id : Nat}

/-- The hole and the child on its right. -/
theorem Full.neighbours_right (hfull : (down above id es (e :: es') ls (r :: rs)).Full m) :
  Neighbours m above es es' ls rs ∧ r.Full m
  := by
  obtain ⟨hl, hr, hleast, hmost, hls, hrs, habove⟩ := hfull
  rw [List.length_cons] at hr hleast hmost
  refine ⟨⟨hl, Nat.succ.inj hr, by omega, by omega, hls, ?_, habove⟩, ?_⟩
  · exact fun c hc => hrs c (List.mem_cons_of_mem r hc)
  · exact hrs r List.mem_cons_self

/-- The hole and the child on its left. -/
theorem Full.neighbours_left (hfull : (down above id (es ++ [e]) es' (ls ++ [l]) rs).Full m) :
  Neighbours m above es es' ls rs ∧ l.Full m
  := by
  obtain ⟨hl, hr, hleast, hmost, hls, hrs, habove⟩ := hfull
  rw [List.length_append, List.length_append, List.length_singleton, List.length_singleton] at hl
  rw [List.length_append, List.length_singleton] at hleast hmost
  refine ⟨⟨Nat.succ.inj hl, hr, by omega, by omega, ?_, hrs, habove⟩, ?_⟩
  · exact fun c hc => hls c (List.mem_append_left [l] hc)
  · exact hls l (List.mem_append_right ls List.mem_cons_self)

/-- With two full children in between the node fits. -/
theorem Neighbours.fits (h : Neighbours m above es es' ls rs) (hl : l.Full m) (hr : r.Full m)
    (id : Nat) (e : E) :
  above.Fits m (UTree.node id (es ++ e :: es') (ls ++ l :: r :: rs))
  := by
  have hleft := h.left
  have hright := h.right
  have hleast := h.least
  have hmost := h.most
  refine ⟨?_, ?_, ?_, ?_⟩
  · rw [UTree.entries_node, List.length_append, List.length_cons]
    omega
  · rw [UTree.entries_node, List.length_append, List.length_cons]
    omega
  · intro _
    simp only [UTree.entries_node, UTree.children_node, List.length_append, List.length_cons]
    omega
  · intro c hc
    simp only [UTree.children_node, List.mem_append, List.mem_cons] at hc
    rcases hc with hc | rfl | rfl | hc
    · exact h.fullLeft c hc
    · exact hl
    · exact hr
    · exact h.fullRight c hc

/-- With one full child in between the node is grown. -/
theorem Neighbours.grown (h : Neighbours m above es es' ls rs) {t : UTree E n} (ht : t.Full m)
    (id : Nat) :
  (UTree.node id (es ++ es') (ls ++ t :: rs)).Grown m
  := by
  have hleft := h.left
  have hright := h.right
  constructor
  · intro _
    simp only [UTree.entries_node, UTree.children_node, List.length_append, List.length_cons]
    omega
  · intro c hc
    simp only [UTree.children_node, List.mem_append, List.mem_cons] at hc
    rcases hc with hc | rfl | hc
    · exact h.fullLeft c hc
    · exact ht
    · exact h.fullRight c hc

end Neighbours

/-- Joining two neighbouring children around the entry between them keeps the contents. -/
theorem Neighbours.around_joined {above : UPath E (n + 2) h} {es es' : List E}
    {ls rs : List (UTree E (n + 1))} {l r : UTree E (n + 1)} (h : Neighbours m above es es' ls rs)
    (hl : l.Linked) (hr : r.Linked) (id : Nat) (e : E) :
  above.around (UTree.node id (es ++ es') (ls ++ UTree.joined l r e :: rs)).contents
    = above.around (UTree.node id (es ++ e :: es') (ls ++ l :: r :: rs)).contents
  := by
  rw [UTree.contents_node _ h.left h.right, UTree.contents_joined hl hr,
    UTree.contents_pair l r h.left h.right]

/-- The tree with a fitting tree put into the hole is a root. -/
theorem Fits.rooted :
  ∀ {n : Nat} {path : UPath E n h} {t : UTree E n}, path.Full m → path.Fits m t →
    (path.plug t).Rooted m
  | _, root, _, _, ht => ht
  | _, down above id es es' ls rs, t, hfull, ht => by
      have hrooted := Fits.rooted hfull.2.2.2.2.2.2 (hfull.node_fits ht.full)
      exact hrooted

/-- The entries before the hole have one property and those after it another one. -/
structure Surrounded (path : UPath E n h) (P Q : E → Prop) : Prop where
  before : ∀ e ∈ path.before, P e
  after : ∀ e ∈ path.after, Q e

/-- The entries of a node in the hole are among those of the tree. -/
theorem Fits.entries_sublist {path : UPath E (n + 1) h} {t : UTree E (n + 1)}
    (hfits : path.Fits m t) :
  t.entries.Sublist (path.around t.contents)
  := (hfits.2.2.linked.entries_sublist.trans (List.sublist_append_left _ _)).trans
    (List.sublist_append_right _ _)

/-- Nothing is around the hole of the empty path. -/
theorem root_surrounded (P Q : E → Prop) :
  (root : UPath E n n).Surrounded P Q
  := ⟨fun _ he => absurd he List.not_mem_nil, fun _ he => absurd he List.not_mem_nil⟩

/-- The properties go on to the path one node down, when the entries of the node before the
hole have the one and those after it the other one. -/
theorem Surrounded.below {r : E → E → Prop} {P Q : E → Prop} {above : UPath E (n + 1) h}
    {id : Nat} {es es' : List E} {ls rs : List (UTree E n)} {c : UTree E n}
    (h : above.Surrounded P Q) (hP : ∀ a b, r a b → P b → P a) (hQ : ∀ a b, r a b → Q a → Q b)
    (hpairwise : ((down above id es es' ls rs).around c.contents).Pairwise r)
    (hl : ls.length = es.length) (hr : es'.length = rs.length) (hes : ∀ e ∈ es, P e)
    (hes' : ∀ e ∈ es', Q e) :
  (down above id es es' ls rs).Surrounded P Q
  := by
  have hl' : (ls.map UTree.contents).length = es.length := by rw [List.length_map, hl]
  have hr' : es'.length = (rs.map UTree.contents).length := by rw [List.length_map, hr]
  simp only [around, UPath.before, UPath.after, List.pairwise_append] at hpairwise
  constructor
  · intro x hx
    rcases List.mem_append.mp hx with hx | hx
    · exact h.before x hx
    · exact forall_followed hP hl' hpairwise.1.2.1 hes x hx
  · intro x hx
    rcases List.mem_append.mp hx with hx | hx
    · exact forall_preceded hQ hr' hpairwise.2.1.2.1.1 hes' x hx
    · exact h.after x hx

end UPath

namespace UTree

variable {E : Type}

/-- The ids of the nodes of a tree, each node before those below it. -/
def ids : {n : Nat} → UTree E n → List Nat
  | 0, t => t.elim
  | _ + 1, t => t.id :: (t.children.map ids).flatten

theorem ids_eq {n : Nat} (t : UTree E (n + 1)) :
  t.ids = t.id :: (t.children.map ids).flatten
  := rfl

/-- The ids of the top nodes are among those of all nodes. -/
theorem map_id_sublist :
  ∀ {n : Nat} (ts : List (UTree E n)), (ts.map (·.id)).Sublist (ts.map ids).flatten
  | _, [] => List.Sublist.refl []
  | 0, t :: _ => t.elim
  | n + 1, t :: ts => by
      rw [List.map_cons, List.map_cons, List.flatten_cons, ids_eq, List.cons_append]
      exact ((map_id_sublist ts).trans (List.sublist_append_right _ _)).cons_cons t.id

end UTree
