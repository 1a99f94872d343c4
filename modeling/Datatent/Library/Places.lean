import Datatent.Library.UTree

/-!
# Places in a tree

A tree is sound when its nodes are linked and have entries, whatever their number; only a
leaf at the top may be empty. A place is an entry of a sound tree, with the node it is in and
its index there, and the entries of the tree before and after it. The nodes of a tree whose
contents are in order are searched for a place where a property stops holding.
-/

namespace UTree

variable {E : Type}

/-- Every node of the tree is linked and has entries. -/
def Sound : {n : Nat} → UTree E n → Prop
  | 0, t => t.elim
  | _ + 1, t => t.entries ≠ [] ∧ t.Linked ∧ ∀ c ∈ t.children, Sound c

/-- The top node is linked, has entries if it is not a leaf, and its children are sound. -/
structure SoundTop {n : Nat} (t : UTree E (n + 1)) : Prop where
  linked : t.Linked
  sound : ∀ c ∈ t.children, c.Sound
  nonempty : n ≠ 0 → t.entries ≠ []

theorem Sound.top {n : Nat} {t : UTree E (n + 1)} (h : t.Sound) :
  t.SoundTop
  := ⟨h.2.1, h.2.2, fun _ => h.1⟩

/-- Sound trees are linked everywhere. -/
theorem Sound.joined :
  ∀ {n : Nat} {t : UTree E n}, t.Sound → t.Joined
  | 0, t, _ => t.elim
  | _ + 1, _, h => ⟨h.2.1, fun c hc => Sound.joined (h.2.2 c hc)⟩

theorem SoundTop.joined {n : Nat} {t : UTree E (n + 1)} (h : t.SoundTop) :
  t.Joined
  := ⟨h.linked, fun c hc => (h.sound c hc).joined⟩

/-- A leaf with entries is sound. -/
theorem sound_leaf {t : UTree E 1} (h : t.entries ≠ []) :
  t.Sound
  := by
  refine ⟨h, fun hne => absurd rfl hne, ?_⟩
  rw [children_leaf]
  simp

/-- Full trees whose nodes have at least one entry are sound. -/
theorem Full.sound {m : Nat} (hm : 1 ≤ m) :
  ∀ {n : Nat} {t : UTree E n}, t.Full m → t.Sound
  | 0, t, _ => t.elim
  | n + 1, t, h => by
      refine ⟨?_, h.2.2.1, fun c hc => Full.sound hm (h.2.2.2 c hc)⟩
      exact List.ne_nil_of_length_pos (Nat.lt_of_lt_of_le hm h.1)

end UTree

namespace UPath

variable {E : Type} {n h : Nat}

/-- Every node of the path has as many children before and after the hole as entries, and its
other children are sound. -/
def Sound : {n : Nat} → UPath E n h → Prop
  | _, root => True
  | _, down above _ es es' ls rs => ls.length = es.length ∧ es'.length = rs.length
      ∧ (∀ c ∈ ls, UTree.Sound c) ∧ (∀ c ∈ rs, UTree.Sound c) ∧ (es ++ es' ≠ []) ∧ above.Sound

/-- The contents of the tree with a tree put into the hole of a sound path. -/
theorem Sound.contents_plug :
  ∀ {n : Nat} {path : UPath E n h} (t : UTree E n), path.Sound →
    (path.plug t).contents = path.around t.contents
  | _, root, t, _ => (around_root t.contents).symm
  | _, down above id es es' ls rs, t, hpath => by
      rw [around_down above id t hpath.1 hpath.2.1]
      exact Sound.contents_plug _ hpath.2.2.2.2.2

/-- A node of a sound path with a sound tree in its hole is sound. -/
theorem Sound.node {above : UPath E (n + 1) h} {id : Nat} {es es' : List E}
    {ls rs : List (UTree E n)} {t : UTree E n} (hpath : (down above id es es' ls rs).Sound)
    (ht : t.Sound) :
  (UTree.node id (es ++ es') (ls ++ t :: rs)).Sound
  := by
  obtain ⟨hl, hr, hls, hrs, hne, -⟩ := hpath
  refine ⟨hne, ?_, ?_⟩
  · intro _
    rw [UTree.entries_node, UTree.children_node, List.length_append, List.length_append,
      List.length_cons]
    omega
  · intro c hc
    rw [UTree.children_node, List.mem_append, List.mem_cons] at hc
    rcases hc with hc | rfl | hc
    · exact hls c hc
    · exact ht
    · exact hrs c hc

/-- The child between two parts of the entries of a node, and the sound path to it. -/
theorem Sound.exists_below {path : UPath E (n + 2) h} {t : UTree E (n + 2)} {es es' : List E}
    (hpath : path.Sound) (ht : t.SoundTop) (hentries : t.entries = es ++ es') :
  ∃ ls c rs, t = UTree.node t.id (es ++ es') (ls ++ c :: rs)
    ∧ (path.down t.id es es' ls rs).Sound ∧ c.Sound
  := by
  obtain ⟨ls, c, rs, heq, hl, hr⟩ := ht.linked.exists_child hentries
  have hsound := ht.sound
  have hne := ht.nonempty (Nat.succ_ne_zero n)
  rw [hentries] at hne
  rw [heq, UTree.children_node] at hsound
  refine ⟨ls, c, rs, heq, ⟨hl, hr, ?_, ?_, hne, hpath⟩, ?_⟩
  · exact fun d hd => hsound d (List.mem_append_left _ hd)
  · exact fun d hd => hsound d (List.mem_append_right _ (List.mem_cons_of_mem c hd))
  · exact hsound c (List.mem_append_right _ List.mem_cons_self)

/-- The entries of a node in the hole are among those of the tree. -/
theorem entries_sublist {path : UPath E (n + 1) h} {t : UTree E (n + 1)} (ht : t.SoundTop) :
  t.entries.Sublist (path.around t.contents)
  := (ht.linked.entries_sublist.trans (List.sublist_append_left _ _)).trans
    (List.sublist_append_right _ _)

/-- Full paths whose nodes have at least one entry are sound. -/
theorem Full.sound {m h : Nat} (hm : 1 ≤ m) :
  ∀ {n : Nat} {path : UPath E (n + 1) h}, path.Full m → path.Sound
  | _, root, _ => trivial
  | n, down above id es es' ls rs, hpath => by
      obtain ⟨hl, hr, hleast, -, hls, hrs, habove⟩ := hpath
      have hone := one_le_least above hm
      refine ⟨hl, hr, fun c hc => (hls c hc).sound hm, fun c hc => (hrs c hc).sound hm, ?_,
        Full.sound hm habove⟩
      apply List.ne_nil_of_length_pos
      rw [List.length_append]
      omega

/-- The top node of a fitting tree is linked with sound children. -/
theorem Fits.soundTop {m : Nat} (hm : 1 ≤ m) {path : UPath E (n + 1) h} {t : UTree E (n + 1)}
    (hfits : path.Fits m t) :
  t.SoundTop
  := by
  refine ⟨hfits.2.2.linked, fun c hc => (hfits.2.2.full c hc).sound hm, ?_⟩
  intro hn
  obtain ⟨n, rfl⟩ := Nat.exists_eq_succ_of_ne_zero hn
  exact hfits.entries_ne_nil hm

/-- What is plugged together to a root fits together: the path is full, and what is in its hole
fits. -/
theorem of_rooted {m h : Nat} :
  ∀ {n : Nat} {path : UPath E (n + 1) h} {t : UTree E (n + 1)}, path.Sound →
    (path.plug t).Rooted m → path.Full m ∧ path.Fits m t
  | _, root, _, _, hrooted => ⟨trivial, hrooted⟩
  | _, down above id es es' ls rs, t, hpath, hrooted => by
      obtain ⟨hl, hr, -, -, -, habove⟩ := hpath
      obtain ⟨hfull, hfits⟩ := of_rooted habove hrooted
      obtain ⟨hdown, ht⟩ := hfits.below hfull hl hr
      exact ⟨hdown, full_fits ht⟩

end UPath

/-! ### Places -/

variable {E : Type} {h : Nat}

/-- An entry of a tree with the id of its node and its index there, and the entries of the tree
before and after it: in a leaf, or between two children. -/
inductive Place (t : UTree E h) : Nat → Nat → List E → E → List E → Prop where
  | leaf {path : UPath E 1 h} {leaf : UTree E 1} {before after : List E} {e : E}
      (sound : path.Sound) (plug : path.plug leaf = t)
      (entries : leaf.entries = before ++ e :: after) :
      Place t leaf.id before.length (path.before ++ before) e (after ++ path.after)
  | inner {n id : Nat} {above : UPath E (n + 2) h} {es es' : List E} {e : E}
      {ls rs : List (UTree E (n + 1))} {l r : UTree E (n + 1)}
      (sound : (UPath.down above id es (e :: es') ls (r :: rs)).Sound) (left : l.Sound)
      (plug : above.plug (.node id (es ++ e :: es') (ls ++ l :: r :: rs)) = t) :
      Place t id es.length
        ((UPath.down above id es (e :: es') ls (r :: rs)).before ++ l.contents) e
        (r.contents ++ (UPath.down above id (es ++ [e]) es' (ls ++ [l]) rs).after)

namespace Place

variable {t : UTree E h} {id i : Nat} {before after : List E} {e : E}

/-- The entries after the hole of a path start with the next one of the node above. -/
theorem after_cons {n : Nat} (above : UPath E (n + 2) h) (id : Nat) (es es' : List E) (e : E)
    (ls rs : List (UTree E (n + 1))) (l r : UTree E (n + 1)) :
  (UPath.down above id es (e :: es') ls (r :: rs)).after
    = e :: (r.contents ++ (UPath.down above id (es ++ [e]) es' (ls ++ [l]) rs).after)
  := by
  rw [UPath.after, UPath.after, List.map_cons, preceded_cons, List.cons_append,
    List.append_assoc]

/-- The entries before the hole of a path end with the one before of the node above. -/
theorem before_append {n : Nat} (above : UPath E (n + 2) h) (id : Nat) {es : List E}
    (es' : List E) (e : E) {ls : List (UTree E (n + 1))} (rs : List (UTree E (n + 1)))
    (l r : UTree E (n + 1)) (hl : ls.length = es.length) :
  (UPath.down above id (es ++ [e]) es' (ls ++ [l]) rs).before
    = ((UPath.down above id es (e :: es') ls (r :: rs)).before ++ l.contents) ++ [e]
  := by
  have hlength : (ls.map UTree.contents).length = es.length := by rw [List.length_map, hl]
  rw [UPath.before, UPath.before, List.map_append, followed_append hlength, List.map_singleton,
    followed_cons, followed_nil]
  simp only [List.append_assoc]

end Place
