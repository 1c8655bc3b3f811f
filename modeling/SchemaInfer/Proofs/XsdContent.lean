import SchemaInfer.Xsd.Import
import Mathlib.Algebra.GroupWithZero.Nat
import Mathlib.Algebra.Order.BigOperators.Group.List

/-!
# How often an element may occur

A content model permits numbers of elements with a name: an element occurs as often as its bounds allow,
and a group repeats the sum of its particles, or one of them if it is a choice, as often as the bounds of
the group allow. The rounds of a group may differ from each other.

Without choices a content model comes down to its elements with what the groups around each of them say
together, which is whether these groups may be left out and whether one of them repeats. `permits_leaves`
says that each permitted number is a sum with one part for each such element, so that what is true of the
parts bounds the whole.
-/

namespace SchemaInfer.Xsd

variable {x : String} {n : Nat} {outer : Multiplicity} {minOccurs : UInt32} {maxOccurs : Int32}
  {P Q : Nat → Prop}

/-! ### Content models -/

/-- The numbers that bounds allow; a negative upper bound is none. -/
def Allows (minOccurs : UInt32) (maxOccurs : Int32) (n : Nat) : Prop :=
  minOccurs.toNat ≤ n ∧ (maxOccurs < 0 ∨ (n : Int) ≤ maxOccurs.toInt)

instance : Decidable (Allows minOccurs maxOccurs n) :=
  inferInstanceAs (Decidable (_ ∧ (_ ∨ _)))

theorem Allows.one_le (h : Allows minOccurs maxOccurs n) (hne : minOccurs ≠ 0) : 1 ≤ n := by
  have hmin : minOccurs.toNat ≠ 0 := fun heq => hne (UInt32.toNat_inj.mp heq)
  have hle := h.1
  omega

theorem Allows.le_one (h : Allows minOccurs maxOccurs n) (hsingle : isRepeated maxOccurs = false) :
    n ≤ 1 := by
  obtain ⟨hbounded, hone⟩ := Bool.or_eq_false_iff.mp hsingle
  have hmax : (n : Int) ≤ maxOccurs.toInt := h.2.resolve_left (of_decide_eq_false hbounded)
  have hle : maxOccurs.toInt ≤ 1 := Int32.le_iff_toInt_le.mp (Int32.not_lt.mp (of_decide_eq_false hone))
  omega

/-- The numbers that come of repeating numbers with a property. -/
def Repeats (minOccurs : UInt32) (maxOccurs : Int32) (P : Nat → Prop) (n : Nat) : Prop :=
  ∃ rounds : List Nat, Allows minOccurs maxOccurs rounds.length ∧ (∀ k ∈ rounds, P k) ∧ n = rounds.sum

/-- The sums of two numbers, each with its property. -/
def Sums (P Q : Nat → Prop) (n : Nat) : Prop :=
  ∃ k l, P k ∧ Q l ∧ n = k + l

/-- The name under which the property of an element stands. -/
def Element.label? (element : Element) : Option String :=
  match element.reference with
  | some reference => some (splitName reference).2
  | none => element.name

mutual

/-- The numbers of elements with a name that a particle permits. -/
def Particle.Permits (x : String) : Particle → Nat → Prop
  | .element element, n =>
    if element.label? = some x then Allows element.minOccurs element.maxOccurs n else n = 0
  | .group .choice particles minOccurs maxOccurs, n =>
    Repeats minOccurs maxOccurs (PermitsOne x particles) n
  | .group _ particles minOccurs maxOccurs, n =>
    Repeats minOccurs maxOccurs (PermitsAll x particles) n
termination_by structural particle => particle

/-- The numbers that particles in a row permit. -/
def PermitsAll (x : String) : List Particle → Nat → Prop
  | [], n => n = 0
  | particle :: particles, n => Sums (particle.Permits x) (PermitsAll x particles) n
termination_by structural particles => particles

/-- The numbers that one of the particles permits. -/
def PermitsOne (x : String) : List Particle → Nat → Prop
  | [], _ => False
  | particle :: particles, n => particle.Permits x n ∨ PermitsOne x particles n
termination_by structural particles => particles

end

theorem Particle.permits_element_iff {element : Element} (h : element.label? = some x) :
    (Particle.element element).Permits x n ↔ Allows element.minOccurs element.maxOccurs n := by
  rw [Particle.Permits, if_pos h]

theorem Particle.permits_other_iff {element : Element} (h : ¬ element.label? = some x) :
    (Particle.element element).Permits x n ↔ n = 0 := by
  rw [Particle.Permits, if_neg h]

mutual

/-- Whether there is no choice in a particle. -/
def Particle.choiceFree : Particle → Bool
  | .element _ => true
  | .group .choice _ _ _ => false
  | .group _ particles _ _ => choiceFreeAll particles
termination_by structural particle => particle

def choiceFreeAll : List Particle → Bool
  | [] => true
  | particle :: particles => particle.choiceFree && choiceFreeAll particles
termination_by structural particles => particles

end

/-! ### Elements and the groups around them -/

mutual

/-- The elements with a name in a particle, each with what the groups around it say. Those in choices do
not count, since a choice has a property of its own. -/
def Particle.leaves (x : String) (outer : Multiplicity) : Particle → List (Multiplicity × Element)
  | .element element => if element.label? = some x then [(outer, element)] else []
  | .group .choice _ _ _ => []
  | .group _ particles minOccurs maxOccurs => leavesOfAll x (outer.within minOccurs maxOccurs) particles
termination_by structural particle => particle

def leavesOfAll (x : String) (outer : Multiplicity) : List Particle → List (Multiplicity × Element)
  | [] => []
  | particle :: particles => particle.leaves x outer ++ leavesOfAll x outer particles
termination_by structural particles => particles

end

/-- The numbers of rounds that the groups around an element may make together. -/
def Multiplicity.Rounds (outer : Multiplicity) (n : Nat) : Prop :=
  (outer.optional = false → 1 ≤ n) ∧ (outer.repeated = false → n ≤ 1)

/-- The numbers that come of numbers with a property inside of groups. -/
def Multiplicity.Total (outer : Multiplicity) (P : Nat → Prop) (n : Nat) : Prop :=
  ∃ rounds : List Nat, outer.Rounds rounds.length ∧ (∀ k ∈ rounds, P k) ∧ n = rounds.sum

/-- The sums with one part for each element. -/
def PermitsLeaves : List (Multiplicity × Element) → Nat → Prop
  | [], n => n = 0
  | (outer, element) :: leaves, n =>
    Sums (outer.Total (Allows element.minOccurs element.maxOccurs)) (PermitsLeaves leaves) n

namespace Multiplicity

theorem total_once (h : P n) : once.Total P n :=
  ⟨[n], ⟨fun _ => Nat.le_refl 1, fun _ => Nat.le_refl 1⟩, List.forall_mem_singleton.mpr h, by simp⟩

theorem Total.mono (hPQ : ∀ n, P n → Q n) (h : outer.Total P n) : outer.Total Q n := by
  obtain ⟨rounds, hlength, hrounds, hsum⟩ := h
  exact ⟨rounds, hlength, fun k hk => hPQ k (hrounds k hk), hsum⟩

theorem Total.eq_zero (h : outer.Total (fun n => n = 0) n) : n = 0 := by
  obtain ⟨rounds, _, hrounds, hsum⟩ := h
  rw [hsum]
  exact List.sum_eq_zero hrounds

theorem exists_split {rounds : List Nat} (hrounds : ∀ n ∈ rounds, Sums P Q n) :
    ∃ ks ls : List Nat, ks.length = rounds.length ∧ ls.length = rounds.length ∧
      (∀ k ∈ ks, P k) ∧ (∀ l ∈ ls, Q l) ∧ rounds.sum = ks.sum + ls.sum := by
  induction rounds with
  | nil => exact ⟨[], [], rfl, rfl, List.forall_mem_nil _, List.forall_mem_nil _, rfl⟩
  | cons round rounds ih =>
    obtain ⟨⟨k, l, hk, hl, rfl⟩, htail⟩ := List.forall_mem_cons.mp hrounds
    obtain ⟨ks, ls, hks, hls, hP, hQ, heq⟩ := ih htail
    refine ⟨k :: ks, l :: ls, ?_, ?_, List.forall_mem_cons.mpr ⟨hk, hP⟩,
      List.forall_mem_cons.mpr ⟨hl, hQ⟩, ?_⟩
    · rw [List.length_cons, hks, List.length_cons]
    · rw [List.length_cons, hls, List.length_cons]
    · rw [List.sum_cons, List.sum_cons, List.sum_cons, heq]
      omega

/-- Rounds of sums are sums of rounds. -/
theorem Total.sums (h : outer.Total (Sums P Q) n) : Sums (outer.Total P) (outer.Total Q) n := by
  obtain ⟨rounds, hlength, hrounds, rfl⟩ := h
  obtain ⟨ks, ls, hks, hls, hP, hQ, heq⟩ := exists_split hrounds
  exact ⟨ks.sum, ls.sum, ⟨ks, hks ▸ hlength, hP, rfl⟩, ⟨ls, hls ▸ hlength, hQ, rfl⟩, heq⟩

theorem exists_flat {rounds : List Nat} (hrounds : ∀ n ∈ rounds, Repeats minOccurs maxOccurs P n) :
    ∃ ks : List Nat, (minOccurs ≠ 0 → rounds.length ≤ ks.length) ∧
      (isRepeated maxOccurs = false → ks.length ≤ rounds.length) ∧ (∀ k ∈ ks, P k) ∧
      rounds.sum = ks.sum := by
  induction rounds with
  | nil => exact ⟨[], fun _ => Nat.le_refl 0, fun _ => Nat.le_refl 0, List.forall_mem_nil _, rfl⟩
  | cons round rounds ih =>
    obtain ⟨⟨ls, hallowed, hls, rfl⟩, htail⟩ := List.forall_mem_cons.mp hrounds
    obtain ⟨ks, hmin, hmax, hks, heq⟩ := ih htail
    refine ⟨ls ++ ks, fun hne => ?_, fun hsingle => ?_, List.forall_mem_append.mpr ⟨hls, hks⟩, ?_⟩
    · have hone := hallowed.one_le hne
      have hrest := hmin hne
      rw [List.length_cons, List.length_append]
      omega
    · have hone := hallowed.le_one hsingle
      have hrest := hmax hsingle
      rw [List.length_cons, List.length_append]
      omega
    · rw [List.sum_cons, List.sum_append, heq]

/-- The rounds of a group, in the rounds of the groups around it, are made one after the other. -/
theorem Total.within (h : outer.Total (Repeats minOccurs maxOccurs P) n) :
    (outer.within minOccurs maxOccurs).Total P n := by
  obtain ⟨rounds, hlength, hrounds, rfl⟩ := h
  obtain ⟨ks, hmin, hmax, hks, heq⟩ := exists_flat hrounds
  refine ⟨ks, ⟨fun hoptional => ?_, fun hrepeated => ?_⟩, hks, heq⟩
  · obtain ⟨houter, hgroup⟩ := Bool.or_eq_false_iff.mp hoptional
    exact (hlength.1 houter).trans (hmin (by simpa using hgroup))
  · obtain ⟨houter, hgroup⟩ := Bool.or_eq_false_iff.mp hrepeated
    exact (hmax hgroup).trans (hlength.2 houter)

end Multiplicity

/-! ### Content models come down to their elements -/

theorem permitsLeaves_append {leaves leaves' : List (Multiplicity × Element)}
    (h : Sums (PermitsLeaves leaves) (PermitsLeaves leaves') n) : PermitsLeaves (leaves ++ leaves') n := by
  obtain ⟨k, l, hk, hl, rfl⟩ := h
  induction leaves generalizing k with
  | nil =>
    obtain rfl : k = 0 := hk
    rw [Nat.zero_add]
    exact hl
  | cons leaf leaves ih =>
    obtain ⟨i, j, hi, hj, rfl⟩ := hk
    exact ⟨i, j + l, hi, ih j hj, Nat.add_assoc i j l⟩

mutual

theorem Particle.permits_leaves (x : String) (outer : Multiplicity) :
    ∀ particle n, Particle.choiceFree particle = true → outer.Total (particle.Permits x) n →
      PermitsLeaves (particle.leaves x outer) n
  | .element element, n, _, h => by
    rw [Particle.leaves]
    split
    · rename_i hlabel
      exact ⟨n, 0, h.mono fun _ => (Particle.permits_element_iff hlabel).mp, rfl, rfl⟩
    · rename_i hlabel
      exact (h.mono fun _ => (Particle.permits_other_iff hlabel).mp).eq_zero
  | .group .sequence particles _ _, n, hfree, h => permitsAll_leaves x _ particles n hfree h.within
  | .group .all particles _ _, n, hfree, h => permitsAll_leaves x _ particles n hfree h.within
  | .group .choice _ _ _, _, hfree, _ => by cases hfree
termination_by structural particle => particle

theorem permitsAll_leaves (x : String) (outer : Multiplicity) :
    ∀ particles n, choiceFreeAll particles = true → outer.Total (PermitsAll x particles) n →
      PermitsLeaves (leavesOfAll x outer particles) n
  | [], n, _, h => h.eq_zero
  | particle :: particles, n, hfree, h => by
    obtain ⟨hfirst, hrest⟩ := Bool.and_eq_true_iff.mp hfree
    obtain ⟨k, l, hk, hl, rfl⟩ := h.sums
    exact permitsLeaves_append ⟨k, l, particle.permits_leaves x outer k hfirst hk,
      permitsAll_leaves x outer particles l hrest hl, rfl⟩
termination_by structural particles => particles

end

/-! ### Numbers that are permitted -/

/-- The bounds allow one occurrence or more. -/
def Admits (minOccurs : UInt32) (maxOccurs : Int32) : Prop :=
  ∃ n, 1 ≤ n ∧ Allows minOccurs maxOccurs n

mutual

/-- All bounds in a particle allow one occurrence or more. -/
def Particle.Satisfiable : Particle → Prop
  | .element element => Admits element.minOccurs element.maxOccurs
  | .group _ particles minOccurs maxOccurs => Admits minOccurs maxOccurs ∧ AllSatisfiable particles
termination_by structural particle => particle

def AllSatisfiable : List Particle → Prop
  | [] => True
  | particle :: particles => particle.Satisfiable ∧ AllSatisfiable particles
termination_by structural particles => particles

end

/-- Bounds that allow more than one allow two or more. -/
theorem Admits.exists_two_le (h : Admits minOccurs maxOccurs) (hrepeated : isRepeated maxOccurs = true) :
    ∃ n, 2 ≤ n ∧ Allows minOccurs maxOccurs n := by
  obtain ⟨n, _, hmin, hmax⟩ := h
  refine ⟨max n 2, Nat.le_max_right n 2, hmin.trans (Nat.le_max_left n 2), ?_⟩
  rcases Bool.or_eq_true_iff.mp hrepeated with hnegative | hone
  · exact Or.inl (of_decide_eq_true hnegative)
  · refine hmax.imp id fun hle => ?_
    have htwo : (1 : Int) < maxOccurs.toInt := Int32.lt_iff_toInt_lt.mp (of_decide_eq_true hone)
    omega

theorem Admits.allows_max (h : Admits minOccurs maxOccurs) (hone : 1 < maxOccurs) :
    Allows minOccurs maxOccurs maxOccurs.toInt.toNat := by
  obtain ⟨n, _, hmin, hmax⟩ := h
  have hpos : (1 : Int) < maxOccurs.toInt := Int32.lt_iff_toInt_lt.mp hone
  have hnegative : ¬ maxOccurs < 0 := by
    intro hlt
    have hlt : maxOccurs.toInt < 0 := Int32.lt_iff_toInt_lt.mp hlt
    omega
  have hle : (n : Int) ≤ maxOccurs.toInt := hmax.resolve_left hnegative
  constructor
  · omega
  · right
    omega

/-- Rounds that are all alike. -/
theorem repeats_mul {rounds k : Nat} (hrounds : Allows minOccurs maxOccurs rounds) (hk : P k) :
    Repeats minOccurs maxOccurs P (rounds * k) := by
  refine ⟨List.replicate rounds k, by rwa [List.length_replicate], ?_, by simp⟩
  intro l hl
  exact List.eq_of_mem_replicate hl ▸ hk

mutual

theorem Particle.permits_zero (x : String) (outer : Multiplicity) :
    ∀ particle, Particle.choiceFree particle = true → particle.Satisfiable →
      particle.leaves x outer = [] → particle.Permits x 0
  | .element element, _, _, hnone => by
    rw [Particle.leaves] at hnone
    split at hnone
    · cases hnone
    · rename_i hlabel
      exact (Particle.permits_other_iff hlabel).mpr rfl
  | .group .sequence particles _ _, hfree, ⟨⟨rounds, _, hrounds⟩, hsat⟩, hnone =>
    repeats_mul hrounds (permitsAll_zero x _ particles hfree hsat hnone)
  | .group .all particles _ _, hfree, ⟨⟨rounds, _, hrounds⟩, hsat⟩, hnone =>
    repeats_mul hrounds (permitsAll_zero x _ particles hfree hsat hnone)
  | .group .choice _ _ _, hfree, _, _ => by cases hfree
termination_by structural particle => particle

theorem permitsAll_zero (x : String) (outer : Multiplicity) :
    ∀ particles, choiceFreeAll particles = true → AllSatisfiable particles →
      leavesOfAll x outer particles = [] → PermitsAll x particles 0
  | [], _, _, _ => rfl
  | particle :: particles, hfree, ⟨hsat, hsatall⟩, hnone => by
    obtain ⟨hfirst, hrest⟩ := Bool.and_eq_true_iff.mp hfree
    obtain ⟨hnone, hnoneall⟩ := List.append_eq_nil_iff.mp hnone
    exact ⟨0, 0, particle.permits_zero x outer hfirst hsat hnone,
      permitsAll_zero x outer particles hrest hsatall hnoneall, rfl⟩
termination_by structural particles => particles

end

/-- A number inside of a group gives a number that is as large, and a larger one if the group repeats. -/
theorem exists_repeats {k : Nat} {bound : Int} {repeated : Bool} (hadmits : Admits minOccurs maxOccurs)
    (hk : P k) (hpos : 1 < bound) (hle : bound ≤ k)
    (hlt : (outer.within minOccurs maxOccurs).repeated = false → repeated = true → bound < k) :
    ∃ n, Repeats minOccurs maxOccurs P n ∧ bound ≤ n ∧
      (outer.repeated = false → repeated = true → bound < n) := by
  cases hrepeated : isRepeated maxOccurs with
  | true =>
    obtain ⟨rounds, htwo, hrounds⟩ := hadmits.exists_two_le hrepeated
    have hmul : 2 * k ≤ rounds * k := Nat.mul_le_mul_right k htwo
    refine ⟨rounds * k, repeats_mul hrounds hk, by omega, fun _ _ => by omega⟩
  | false =>
    obtain ⟨rounds, hone, hrounds⟩ := hadmits
    have hmul : 1 * k ≤ rounds * k := Nat.mul_le_mul_right k hone
    refine ⟨rounds * k, repeats_mul hrounds hk, by omega, fun houter hinner => ?_⟩
    have hkept : (outer.within minOccurs maxOccurs).repeated = false :=
      Bool.or_eq_false_iff.mpr ⟨houter, hrepeated⟩
    have hstrict := hlt hkept hinner
    omega

mutual

/-- The only element with a name may occur as often as it is allowed to, and in a group that repeats more
often. -/
theorem Particle.exists_permits (x : String) (outer : Multiplicity) :
    ∀ particle, Particle.choiceFree particle = true → particle.Satisfiable →
      ∀ inner element, particle.leaves x outer = [(inner, element)] → 1 < element.maxOccurs →
        ∃ n, particle.Permits x n ∧ element.maxOccurs.toInt ≤ n ∧
          (outer.repeated = false → inner.repeated = true → element.maxOccurs.toInt < n)
  | .element element, _, hsat, inner, element', hleaf, hone => by
    rw [Particle.leaves] at hleaf
    split at hleaf
    · rename_i hlabel
      obtain ⟨rfl, rfl⟩ := Prod.mk.inj (List.singleton_inj.mp hleaf)
      refine ⟨_, ?_, Int.self_le_toNat _, fun houter hinner => ?_⟩
      · exact (Particle.permits_element_iff hlabel).mpr (Admits.allows_max hsat hone)
      · rw [houter] at hinner
        cases hinner
    · cases hleaf
  | .group .sequence particles _ _, hfree, ⟨hadmits, hsat⟩, inner, element, hleaf, hone => by
    obtain ⟨k, hk, hle, hlt⟩ := exists_permitsAll x _ particles hfree hsat inner element hleaf hone
    exact exists_repeats hadmits hk (Int32.lt_iff_toInt_lt.mp hone) hle hlt
  | .group .all particles _ _, hfree, ⟨hadmits, hsat⟩, inner, element, hleaf, hone => by
    obtain ⟨k, hk, hle, hlt⟩ := exists_permitsAll x _ particles hfree hsat inner element hleaf hone
    exact exists_repeats hadmits hk (Int32.lt_iff_toInt_lt.mp hone) hle hlt
  | .group .choice _ _ _, hfree, _, _, _, _, _ => by cases hfree
termination_by structural particle => particle

theorem exists_permitsAll (x : String) (outer : Multiplicity) :
    ∀ particles, choiceFreeAll particles = true → AllSatisfiable particles →
      ∀ inner element, leavesOfAll x outer particles = [(inner, element)] → 1 < element.maxOccurs →
        ∃ n, PermitsAll x particles n ∧ element.maxOccurs.toInt ≤ n ∧
          (outer.repeated = false → inner.repeated = true → element.maxOccurs.toInt < n)
  | [], _, _, _, _, hleaf, _ => by cases hleaf
  | particle :: particles, hfree, ⟨hsat, hsatall⟩, inner, element, hleaf, hone => by
    obtain ⟨hfirst, hrest⟩ := Bool.and_eq_true_iff.mp hfree
    rcases List.append_eq_singleton_iff.mp hleaf with ⟨hnone, hsome⟩ | ⟨hsome, hnone⟩
    · have hzero := particle.permits_zero x outer hfirst hsat hnone
      obtain ⟨n, hn, hbound⟩ := exists_permitsAll x outer particles hrest hsatall inner element hsome hone
      exact ⟨n, ⟨0, n, hzero, hn, (Nat.zero_add n).symm⟩, hbound⟩
    · have hzero := permitsAll_zero x outer particles hrest hsatall hnone
      obtain ⟨n, hn, hbound⟩ := particle.exists_permits x outer hfirst hsat inner element hsome hone
      exact ⟨n, ⟨n, 0, hn, hzero, rfl⟩, hbound⟩
termination_by structural particles => particles

end

end SchemaInfer.Xsd
