import Datatent.Library.Bytes

/-!
# Structures with explicit layout

A structure with explicit layout is the string of its bytes, and each of its fields is a range
of them, at an offset that is given by hand. When values are assigned to fields one after the
other, every field holds its value in the end exactly when no two values differ in a byte that
their fields share (`forall_holds_iff_agree`), in whatever order they are assigned.
-/

namespace Layout

/-- A field with the bytes of the value assigned to it. -/
structure Field where
  offset : Nat
  value : Bytes

/-- The bytes of the structure after the assignment. -/
def assign (m : Bytes) (f : Field) : Bytes :=
  Bytes.overwrite m f.offset f.value

/-- The bytes of the structure after one assignment after the other. -/
def assignAll (m : Bytes) (fields : List Field) : Bytes :=
  fields.foldl assign m

/-- The field holds its value. -/
def Holds (m : Bytes) (f : Field) : Prop :=
  (m.drop f.offset).take f.value.length = f.value

/-- The values of two fields do not differ in a byte that the fields share. -/
def Agree (f g : Field) : Prop :=
  ∀ i j, i < f.value.length → j < g.value.length → f.offset + i = g.offset + j →
    f.value[i]? = g.value[j]?

/-- Fields without a common byte agree. -/
theorem agree_of_disjoint {f g : Field}
    (h : f.offset + f.value.length ≤ g.offset ∨ g.offset + g.value.length ≤ f.offset) :
  Agree f g
  := by
  intro i j hi hj hij
  omega

theorem Agree.symm {f g : Field} (h : Agree f g) :
  Agree g f
  := by
  intro i j hi hj hij
  exact (h j i hj hi hij.symm).symm

/-- A field agrees with itself. -/
theorem Agree.refl (f : Field) :
  Agree f f
  := by
  intro i j _ _ hij
  obtain rfl : i = j := by omega
  rfl

/-- A field holds its value when every byte of it is there. -/
theorem holds_iff {m : Bytes} {f : Field} :
  Holds m f ↔ ∀ i < f.value.length, m[f.offset + i]? = f.value[i]?
  := by
  constructor
  · intro h i hi
    rw [← List.getElem?_drop, ← List.getElem?_take_of_lt hi, h]
  · intro h
    apply List.ext_getElem?
    intro i
    by_cases hi : i < f.value.length
    · rw [List.getElem?_take_of_lt hi, List.getElem?_drop, h i hi]
    · rw [List.getElem?_take_eq_none (by omega), List.getElem?_eq_none (by omega)]

variable {m : Bytes} {f g : Field}

/-- An assignment keeps the size of the structure. -/
theorem length_assign (hf : f.offset + f.value.length ≤ m.length) :
  (assign m f).length = m.length
  := Bytes.length_overwrite hf

/-- A field holds the value that is assigned to it. -/
theorem holds_assign (hf : f.offset + f.value.length ≤ m.length) :
  Holds (assign m f) f
  := by
  apply holds_iff.mpr
  intro i hi
  exact Bytes.getElem?_overwrite_of_mem hf hi

/-- A field keeps its value where another one gets a value that agrees with it. -/
theorem Holds.assign (h : Holds m f) (hg : g.offset + g.value.length ≤ m.length)
    (hagree : Agree f g) :
  Holds (Layout.assign m g) f
  := by
  rw [holds_iff] at h ⊢
  intro i hi
  rw [Layout.assign, Bytes.getElem?_overwrite hg]
  split
  · rename_i hrange
    rw [hagree i (f.offset + i - g.offset) hi (by omega) (by omega)]
  · exact h i hi

/-- Two fields that hold their values in one structure agree. -/
theorem Holds.agree (hf : Holds m f) (hg : Holds m g) :
  Agree f g
  := by
  rw [holds_iff] at hf hg
  intro i j hi hj hij
  rw [← hf i hi, ← hg j hj, hij]

/-- A field holds the bytes of a number when the number is read from its range. -/
theorem holds_toLE_iff {offset n v : Nat} (hm : offset + n ≤ m.length) (hv : v < 256 ^ n) :
  Holds m ⟨offset, Bytes.toLE n v⟩ ↔ Bytes.readLE (m.drop offset) n = v
  := by
  have hlength : n ≤ (m.drop offset).length := by
    rw [List.length_drop]
    omega
  rw [Holds, Bytes.length_toLE, ← Bytes.toLE_readLE hlength]
  constructor
  · intro h
    have hread := congrArg (fun s => Bytes.readLE (s ++ []) n) h
    simp only [Bytes.readLE_toLE_append] at hread
    rwa [Nat.mod_eq_of_lt (Bytes.readLE_lt _ n), Nat.mod_eq_of_lt hv] at hread
  · intro h
    rw [h]

/-- The size of a structure after all assignments. -/
theorem length_assignAll {fields : List Field}
    (h : ∀ f ∈ fields, f.offset + f.value.length ≤ m.length) :
  (assignAll m fields).length = m.length
  := by
  induction fields generalizing m with
  | nil => rfl
  | cons f fields ih =>
      have hf := length_assign (h f List.mem_cons_self)
      apply Eq.trans (ih _) hf
      intro g hg
      rw [hf]
      exact h g (List.mem_cons_of_mem f hg)

/-- A field that holds its value keeps it through assignments of values that agree with it. -/
theorem Holds.assignAll {fields : List Field} (h : Holds m f)
    (hfields : ∀ g ∈ fields, g.offset + g.value.length ≤ m.length)
    (hagree : ∀ g ∈ fields, Agree f g) :
  Holds (Layout.assignAll m fields) f
  := by
  induction fields generalizing m with
  | nil => exact h
  | cons g fields ih =>
      have hg := hfields g List.mem_cons_self
      apply ih (h.assign hg (hagree g List.mem_cons_self))
      · intro f' hf'
        rw [length_assign hg]
        exact hfields f' (List.mem_cons_of_mem g hf')
      · intro f' hf'
        exact hagree f' (List.mem_cons_of_mem g hf')

/-- The field that is assigned last holds its value. -/
theorem holds_assignAll_concat {fields : List Field}
    (h : ∀ g ∈ fields ++ [f], g.offset + g.value.length ≤ m.length) :
  Holds (assignAll m (fields ++ [f])) f
  := by
  have hfields : ∀ g ∈ fields, g.offset + g.value.length ≤ m.length := by
    intro g hg
    exact h g (List.mem_append_left [f] hg)
  rw [assignAll, List.foldl_append]
  apply holds_assign
  rw [← assignAll, length_assignAll hfields]
  exact h f (List.mem_append_right fields (List.mem_singleton_self f))

/-- After all assignments every field holds its value when any two values agree, and only
then. -/
theorem forall_holds_iff_agree {fields : List Field}
    (hfields : ∀ f ∈ fields, f.offset + f.value.length ≤ m.length) :
  (∀ f ∈ fields, Holds (assignAll m fields) f) ↔ ∀ f ∈ fields, ∀ g ∈ fields, Agree f g
  := by
  constructor
  · intro h f hf g hg
    exact (h f hf).agree (h g hg)
  · intro hagree
    induction fields generalizing m with
    | nil => simp
    | cons g fields ih =>
        have hg := hfields g List.mem_cons_self
        have hrest : ∀ f ∈ fields, f.offset + f.value.length ≤ (assign m g).length := by
          intro f hf
          rw [length_assign hg]
          exact hfields f (List.mem_cons_of_mem g hf)
        intro f hf
        rcases List.mem_cons.mp hf with rfl | hf
        · apply (holds_assign hg).assignAll hrest
          intro f' hf'
          exact hagree f List.mem_cons_self f' (List.mem_cons_of_mem f hf')
        · apply ih hrest _ f hf
          intro f' hf' f'' hf''
          exact hagree f' (List.mem_cons_of_mem g hf') f'' (List.mem_cons_of_mem g hf'')

end Layout
