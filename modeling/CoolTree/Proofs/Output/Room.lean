import CoolTree.Output.Sink

/-!
# Writing to a sink with limited room

A write either fits and is stored whole, or it does not fit, and then what there
is room for is stored and the sink refuses the rest.  Pieces written one after
the other are written like the one text they make up, wherever the room ends.
-/

namespace CoolTree.Sink

def Fits (sink : Sink) (count : Nat) : Prop :=
  ∀ room, sink.room? = some room → count ≤ room

def storing (sink : Sink) (bytes : ByteArray) : Sink :=
  { sink with stored := sink.stored ++ bytes }

@[simp]
theorem storing_empty (sink : Sink) : sink.storing ByteArray.empty = sink := by
  simp [storing]

@[simp]
theorem storing_storing (sink : Sink) (left right : ByteArray) :
    (sink.storing left).storing right = sink.storing (left ++ right) := by
  simp [storing, ByteArray.append_assoc]

@[simp]
theorem refusal_storing (sink : Sink) (bytes : ByteArray) :
    (sink.storing bytes).refusal = sink.refusal := rfl

theorem room?_storing (sink : Sink) (bytes : ByteArray) :
    (sink.storing bytes).room? = sink.room?.map fun room => room - bytes.size := by
  simp only [room?, storing, Option.map_map, ByteArray.size_append]
  apply congrArg (fun remaining => sink.limit?.map remaining)
  funext limit
  exact Nat.sub_add_eq limit sink.stored.size bytes.size

theorem fits_storing_iff {sink : Sink} {bytes : ByteArray} {count : Nat}
    (hfits : sink.Fits bytes.size) :
    (sink.storing bytes).Fits count ↔ sink.Fits (bytes.size + count) := by
  simp only [Fits, room?_storing, Option.map_eq_some_iff]
  constructor
  · intro hlater room hroom
    have hbytes := hfits room hroom
    have hcount := hlater (room - bytes.size) ⟨room, hroom, rfl⟩
    omega
  · rintro hboth _ ⟨room, hroom, rfl⟩
    have hcount := hboth room hroom
    omega

theorem fits_of_unlimited {sink : Sink} (hlimit : sink.limit? = none) (count : Nat) :
    sink.Fits count := by
  intro room hroom
  simp [room?, hlimit] at hroom

theorem not_fits_iff {sink : Sink} {count : Nat} :
    ¬ sink.Fits count ↔ ∃ room, sink.room? = some room ∧ room < count := by
  simp [Fits]

theorem write_of_fits {sink : Sink} {bytes : ByteArray} (hfits : sink.Fits bytes.size) :
    write bytes sink = .ok () (sink.storing bytes) := by
  rw [write]
  cases hroom : sink.room? with
  | none => rfl
  | some room => exact if_pos (hfits room hroom)

theorem write_of_full {sink : Sink} {bytes : ByteArray} {room : Nat}
    (hroom : sink.room? = some room) (hfull : room < bytes.size) :
    write bytes sink = .error sink.refusal (sink.storing (bytes.extract 0 room)) := by
  rw [write, hroom]
  exact if_neg (Nat.not_le_of_lt hfull)

theorem extract_append_of_size_le {left right : ByteArray} {room : Nat}
    (hsize : left.size ≤ room) :
    (left ++ right).extract 0 room = left ++ right.extract 0 (room - left.size) := by
  have hmax : room = max room left.size := by omega
  rw [ByteArray.extract_append, Nat.zero_sub]
  congr 1
  rw [hmax, ByteArray.extract_zero_max_size]

theorem extract_append_of_le_size {left right : ByteArray} {room : Nat}
    (hsize : room ≤ left.size) : (left ++ right).extract 0 room = left.extract 0 room := by
  rw [ByteArray.extract_append, Nat.zero_sub, Nat.sub_eq_zero_of_le hsize,
    ByteArray.extract_same, ByteArray.append_empty]

/-- One write after another is a write of both. -/
theorem write_append (left right : ByteArray) :
    (do write left; write right : EStateM Refusal Sink Unit) = write (left ++ right) := by
  funext sink
  simp only [bind, EStateM.bind]
  by_cases hleft : sink.Fits left.size
  · rw [write_of_fits hleft]
    by_cases hright : (sink.storing left).Fits right.size
    · have hboth : sink.Fits (left ++ right).size := by
        rw [ByteArray.size_append]
        exact (fits_storing_iff hleft).mp hright
      simp only [write_of_fits hright, write_of_fits hboth, storing_storing]
    · -- The room ends inside the right piece, behind all of the left one.
      obtain ⟨rest, hrest, hshort⟩ := not_fits_iff.mp hright
      obtain ⟨room, hroom, rfl⟩ := Option.map_eq_some_iff.mp (room?_storing sink left ▸ hrest)
      have hboth : room < (left ++ right).size := by
        rw [ByteArray.size_append]
        omega
      rw [write_of_full hroom hboth, extract_append_of_size_le (hleft room hroom)]
      simp only [write_of_full hrest hshort, storing_storing, refusal_storing]
  · -- The room ends inside the left piece, and the right one is never tried.
    obtain ⟨room, hroom, hfull⟩ := not_fits_iff.mp hleft
    have hboth : room < (left ++ right).size := by
      rw [ByteArray.size_append]
      omega
    rw [write_of_full hroom hfull, write_of_full hroom hboth,
      extract_append_of_le_size (Nat.le_of_lt hfull)]

theorem write_empty : write ByteArray.empty = (pure () : EStateM Refusal Sink Unit) := by
  funext sink
  have hfits : sink.Fits ByteArray.empty.size := fun room _ => Nat.zero_le room
  rw [write_of_fits hfits, storing_empty]
  rfl

/-- Texts written one after the other are written like the text they make up. -/
theorem forM_writeText (texts : List String) :
    texts.forM writeText = writeText (String.join texts) := by
  induction texts with
  | nil => exact write_empty.symm
  | cons text rest ih =>
      rw [List.forM, ih, String.join_cons]
      simp only [writeText, String.toUTF8_eq_toByteArray, String.toByteArray_append]
      exact write_append text.toByteArray (String.join rest).toByteArray

end CoolTree.Sink
