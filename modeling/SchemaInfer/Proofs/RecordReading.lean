import SchemaInfer.Json.Record
import SchemaInfer.Proofs.Entries
import SchemaInfer.Proofs.Outcomes

/-!
# Reading what was written

A writer puts the values of a model under fixed keys and a reader looks for them there. What the document
models have in common is settled here: a number is read as the number that was written, a list item by item
and a record entry by entry. A record takes no notice of keys that it does not know, so it is enough that
the keys differ and that the ones without a default are among them.
-/

namespace SchemaInfer

open Misfit (within unplaced)

theorem pure_eq_ok {ε α : Type} (a : α) : (pure a : Except ε α) = .ok a := rfl

namespace Misfit

variable {α : Type}

@[simp] theorem within_ok (step : Step) (a : α) : within step (.ok a) = .ok a := rfl

@[simp] theorem unplaced_ok (a : α) : unplaced (.ok a) = .ok a := rfl

theorem unplaced_eq_ok {x : Except Misfit α} {a : α} (h : x = .ok a) : unplaced x = .ok a := by
  rw [h, unplaced_ok]

end Misfit

namespace Json

variable {α : Type}

/-! ### Numbers -/

theorem asUInt32_toNat (n : UInt32) : asUInt32 (.int n.toNat) = .ok n := by
  have hrange : (0 : Int) ≤ n.toNat ∧ (n.toNat : Int) < UInt32.size :=
    ⟨Int.natCast_nonneg _, Int.ofNat_lt.mpr n.toNat_lt⟩
  rw [asUInt32, if_pos hrange, Int.toNat_natCast, UInt32.ofNat_toNat]

theorem asInt32_toInt (n : Int32) : asInt32 (.int n.toInt) = .ok n := by
  have hrange : Int32.minValue.toInt ≤ n.toInt ∧ n.toInt ≤ Int32.maxValue.toInt :=
    ⟨n.minValue_le_toInt, n.toInt_le⟩
  rw [asInt32, if_pos hrange, Int32.ofInt_toInt]

theorem asInt64_toInt (n : Int64) : asInt64 (.int n.toInt) = .ok n := by
  have hrange : Int64.minValue.toInt ≤ n.toInt ∧ n.toInt ≤ Int64.maxValue.toInt :=
    ⟨n.minValue_le_toInt, n.toInt_le⟩
  rw [asInt64, if_pos hrange, Int64.ofInt_toInt]

/-! ### Parts that may be missing -/

theorem asOption_eq_some {read : Json → Except Misfit α} {json : Json} {a : α} (hjson : json ≠ null)
    (h : read json = .ok a) : json.asOption (fun part _ => read part) = .ok (some a) := by
  unfold asOption
  split
  · exact absurd rfl hjson
  · dsimp only
    rw [h]
    rfl

/-! ### Lists -/

theorem readAll_map {write : α → Json} {read : Json → Except Misfit α} {xs : List α} {start : Nat}
    (h : ∀ x ∈ xs, read (write x) = .ok x) :
    readAll (xs.map write) start (fun item _ => read item) = .ok xs := by
  induction xs generalizing start with
  | nil => rfl
  | cons x xs ih =>
    obtain ⟨hx, hxs⟩ := List.forall_mem_cons.mp h
    rw [List.map_cons, readAll, hx, ih hxs]
    rfl

/-- A list is read back if each of its items is. -/
theorem asList_map {write : α → Json} {read : Json → Except Misfit α} {xs : List α}
    (h : ∀ x ∈ xs, read (write x) = .ok x) :
    asList (.array (xs.map write)) (fun item _ => read item) = .ok xs :=
  readAll_map h

theorem asList_strings (texts : List String) :
    asList (.array (texts.map string)) (fun item _ => item.asString) = .ok texts :=
  asList_map fun _ _ => rfl

/-! ### Tags -/

theorem asTag_name {name : α → String} {alternatives : List α} {choice : α}
    (h : (alternatives.find? fun other => name other == name choice) = some choice) (lenient : Bool) :
    asTag lenient name alternatives (.string (name choice)) = .ok choice := by
  rw [asTag, h]

/-! ### Records -/

section Entries

variable {entries : List (String × Json)}

theorem find?_repeated (h : (Entries.keys entries).Nodup) (names : List String) :
    (names.find? fun name => decide (1 < (Entries.keys entries).count name)) = none := by
  rw [List.find?_eq_none]
  intro name _
  have hcount := List.nodup_iff_count_le_one.mp h name
  simpa using hcount

theorem refuseRepeated_object (h : (Entries.keys entries).Nodup) (names : List String) :
    refuseRepeated names (.object entries) = .ok () := by
  rw [refuseRepeated, find?_repeated h]

theorem field_object {read : Json → Except Misfit α} {name : String} {part : Json}
    (h : entries.lookup name = some part) :
    field name (.object entries) (fun part _ => read part) = read part := by
  rw [field]
  split
  · rename_i found hfound
    rw [h] at hfound
    cases hfound
    rfl
  · rename_i hnone
    rw [h] at hnone
    cases hnone

theorem recordParts_object (h : (Entries.keys entries).Nodup) (fields : List String) :
    recordParts fields (.object entries) =
      .ok (entries.attach.map fun entry =>
        (.key entry.1.1, entry.1.1, ⟨entry.1.2, sizeOf_lt_of_entry entry.2⟩)) := by
  rw [recordParts, find?_repeated h]

/-- The fields that a record needs are found among its parts. -/
theorem find?_missing {needed : List String} (h : ∀ field ∈ needed, field ∈ Entries.keys entries) :
    (needed.find? fun field => !entries.attach.any fun entry => entry.1.1 == field) = none := by
  rw [List.find?_eq_none]
  intro field hfield
  obtain ⟨entry, hentry, rfl⟩ := List.mem_map.mp (h field hfield)
  simp only [Bool.not_eq_true, Bool.not_eq_false', List.any_eq_true]
  exact ⟨⟨entry, hentry⟩, List.mem_attach _ _, beq_self_eq_true _⟩

/-- A record is read onto its default entry by entry, if the keys `names` of the entries differ and all
fields without a default are among them. -/
theorem asRecord_object {set : String → Json → α → Except Misfit α} {fields needed : List String}
    {default : α} (names : List String) (hnames : Entries.keys entries = names)
    (hdistinct : names.Nodup) (hneeded : ∀ field ∈ needed, field ∈ names) :
    asRecord fields needed default (.object entries) (fun name part _ acc => set name part acc) =
      entries.foldlM (fun acc entry => within (.key entry.1) (set entry.1 entry.2 acc)) default := by
  subst hnames
  rw [asRecord, recordParts_object hdistinct, ok_bind]
  simp only [List.any_map, Function.comp_def, find?_missing hneeded, bind_pure]
  rw [List.foldlM_map]
  conv_rhs => rw [← List.attach_map_subtype_val entries, List.foldlM_map]

/-- An entry that the record does not know makes no difference. -/
theorem asRecord_ignored {set : String → Json → α → Except Misfit α} {fields needed : List String}
    {default : α} {key : String} {value : Json} (names : List String)
    (hnames : Entries.keys entries = names) (hdistinct : (key :: names).Nodup)
    (hneeded : ∀ field ∈ needed, field ∈ names) (hset : ∀ acc, set key value acc = .ok acc) :
    asRecord fields needed default (.object ((key, value) :: entries))
        (fun name part _ acc => set name part acc) =
      asRecord fields needed default (.object entries) (fun name part _ acc => set name part acc) := by
  have hkeys : Entries.keys ((key, value) :: entries) = key :: names := by
    rw [← hnames]
    rfl
  have hmore : ∀ field ∈ needed, field ∈ key :: names :=
    fun field hfield => List.mem_cons_of_mem _ (hneeded field hfield)
  rw [asRecord_object (key :: names) hkeys hdistinct hmore,
    asRecord_object names hnames (List.nodup_cons.mp hdistinct).2 hneeded, List.foldlM_cons, hset,
    Misfit.within_ok, ok_bind]

end Entries

end Json

end SchemaInfer
