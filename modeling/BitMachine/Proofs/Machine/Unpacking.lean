import Mathlib.Data.List.Basic
import BitMachine.Proofs.Machine.Rendering

/-! Packing bits into characters loses nothing: the characters and the bits that are still pending
give back what was written. Whatever numbers are written, eight of them make a group, and what comes
of a group depends on no other one. -/

set_option autoImplicit false

namespace BitMachine

namespace Output

/-- The lowest bits of a number, the most significant first. -/
def lowBits (width code : Nat) : List Bool :=
  (List.range width).reverse.map code.testBit

/-- The bits that a character is written with, the most significant first. -/
def bitsOf (c : Char) : List Bool :=
  lowBits groupSize c.toNat

section Bits

theorem lowBits_concat (width code : Nat) (bit : Bool) :
    lowBits (width + 1) (2 * code + bit.toNat) = lowBits width code ++ [bit] := by
  have lowest : (2 * code + bit.toNat).testBit 0 = bit := by
    rw [Nat.testBit_zero]
    cases bit <;> simp
  have higher : ∀ place, (2 * code + bit.toNat).testBit (place + 1) = code.testBit place := by
    intro place
    have half : (2 * code + bit.toNat) / 2 = code := by
      cases bit <;> simp only [Bool.toNat_true, Bool.toNat_false] <;> omega
    rw [Nat.testBit_succ, half]
  unfold lowBits
  rw [List.range_succ_eq_map, List.reverse_cons, List.map_append, List.map_singleton, lowest,
    ← List.map_reverse, List.map_map]
  congr 1
  exact List.map_congr_left fun place _ => higher place

/-- A group is what it appends to the bits of a number. -/
theorem lowBits_foldl (group : List Bool) (width code : Nat) :
    lowBits (width + group.length) (group.foldl (fun code bit => 2 * code + bit.toNat) code) =
      lowBits width code ++ group := by
  induction group generalizing width code with
  | nil => rw [List.append_nil]; rfl
  | cons bit group ih =>
    have further := ih (width + 1) (2 * code + bit.toNat)
    rw [lowBits_concat, List.append_assoc, Nat.add_right_comm, Nat.add_assoc] at further
    exact further

theorem toNat_group {group : List Bool} (eight : group.length = groupSize) :
    (Char.ofNat (groupCode group)).toNat = groupCode group := by
  have small := groupCode_lt group
  rw [eight, groupSize] at small
  have valid : (groupCode group).isValidChar := Or.inl (by omega)
  unfold Char.ofNat
  rw [dif_pos valid]
  rfl

theorem bitsOf_group {group : List Bool} (eight : group.length = groupSize) :
    bitsOf (Char.ofNat (groupCode group)) = group := by
  have bits := lowBits_foldl group 0 0
  rw [Nat.zero_add, eight] at bits
  rw [bitsOf, toNat_group eight]
  exact bits

/-- No character has more than eight bits. -/
theorem toNat_lt_of_mem_packed {bits : List Bool} {c : Char} (inside : c ∈ packed bits) :
    c.toNat < 2 ^ groupSize := by
  fun_induction packed bits with
  | case1 d e f g h i j k rest ih =>
    rcases List.mem_cons.mp inside with rfl | later
    · rw [toNat_group rfl]
      exact groupCode_lt [d, e, f, g, h, i, j, k]
    · exact ih later
  | case2 => cases inside

/-- The characters of complete groups have their bits. -/
theorem flatMap_bitsOf_packed : (full : List Bool) → full.length % groupSize = 0 →
    (packed full).flatMap bitsOf = full
  | [], _ => rfl
  | [_], whole | [_, _], whole | [_, _, _], whole | [_, _, _, _], whole
  | [_, _, _, _, _], whole | [_, _, _, _, _, _], whole
  | [_, _, _, _, _, _, _], whole => by cases whole
  | a :: b :: c :: d :: e :: f :: g :: h :: full, whole => by
    have fewer : full.length % groupSize = 0 := by
      simp only [List.length_cons, groupSize] at whole ⊢
      omega
    have group : bitsOf (Char.ofNat (groupCode [a, b, c, d, e, f, g, h])) =
        [a, b, c, d, e, f, g, h] := bitsOf_group rfl
    rw [packed, List.flatMap_cons, group, flatMap_bitsOf_packed full fewer]
    rfl

/-- Bits are written without fault, and shown behind those before them. -/
theorem Shows.writeAll {style : OutputStyle} {bits : List Bool} {output : Output}
    (displays : Shows style bits output) (index : Nat) (more : List Bool) :
    ∃ written, Output.writeAll index (more.map Json.ofBit) output = ([], written) ∧
      Shows style (bits ++ more) written := by
  induction more generalizing bits output index with
  | nil => exact ⟨output, rfl, by rwa [List.append_nil]⟩
  | cons bit more ih =>
    obtain ⟨between, first, displays⟩ := displays.write bit
    obtain ⟨written, rest, displays⟩ := ih displays (index + 1)
    refine ⟨written, ?_, ?_⟩
    · rw [List.map_cons, Output.writeAll, first]
      dsimp only
      rw [rest]
      rfl
    · rwa [List.append_assoc] at displays

end Bits

section Groups

variable {output : Output}

theorem writeAll_append (index : Nat) (front back : List Json) (output : Output) :
    writeAll index (front ++ back) output =
      ((writeAll index front output).1 ++
          (writeAll (index + front.length) back (writeAll index front output).2).1,
        (writeAll (index + front.length) back (writeAll index front output).2).2) := by
  induction front generalizing index output with
  | nil => rfl
  | cons bit front ih =>
    have shifted : index + 1 + front.length = index + (bit :: front).length := by
      rw [List.length_cons]
      omega
    simp only [List.cons_append, writeAll, ih, shifted, List.append_assoc]

theorem writeAll_singleton (index : Nat) (bit : Json) (output : Output) :
    writeAll index [bit] output =
      (((output.write bit).1.map (index, ·)).toList, (output.write bit).2) := by
  simp only [writeAll, List.append_nil]

theorem write_of_characters (packing : output.style = .characters) (bit : Json) :
    output.write bit = output.pack bit := by
  unfold write
  rw [packing]

/-- Too few numbers for a group stay pending. -/
theorem writeAll_few (packing : output.style = .characters) (index : Nat) {few : List Json}
    (room : output.pending.length + few.length < groupSize) :
    writeAll index few output = ([], { output with pending := output.pending ++ few }) := by
  induction few generalizing index output with
  | nil =>
    rw [List.append_nil]
    rfl
  | cons bit few ih =>
    have longer : (output.pending ++ [bit]).length = output.pending.length + 1 :=
      List.length_append
    rw [List.length_cons] at room
    have first : output.pack bit = (none, { output with pending := output.pending ++ [bit] }) :=
      if_pos (by omega)
    have rest := @ih { output with pending := output.pending ++ [bit] } packing (index + 1)
      (by dsimp only; omega)
    rw [writeAll, write_of_characters packing, first]
    dsimp only
    rw [rest]
    dsimp only
    rw [List.append_assoc]
    rfl

/-- What a group of numbers puts out: the character of its code, if it is one. -/
def groupText (group : List Int) : String :=
  match character? (codeOf group) with
  | some c => String.singleton c
  | none => ""

/-- The fault that the last number of a group ends with, if the code is no character. -/
def groupFaults (index : Nat) (group : List Int) : List (Nat × Fault) :=
  match character? (codeOf group) with
  | some _ => []
  | none => [(index, .noCharacter (codeOf group))]

/-- The last number of a group settles it, and nothing stays pending. -/
theorem writeAll_last (packing : output.style = .characters) (index : Nat) {front : List Int}
    {last : Int} (eight : (front ++ [last]).length = groupSize) :
    writeAll index [.int last] { output with pending := front.map .int } =
      (groupFaults index (front ++ [last]),
        { output with pending := [], text := output.text ++ groupText (front ++ [last]) }) := by
  have complete : front.map Json.int ++ [.int last] = (front ++ [last]).map Json.int := by
    rw [List.map_append]
    rfl
  have full : ¬((front ++ [last]).map Json.int).length ≠ groupSize := by
    rw [List.length_map]
    exact not_not.mpr eight
  rw [writeAll_singleton]
  unfold write pack groupFaults groupText
  rw [packing]
  dsimp only
  rw [complete, if_neg full, mapM_whole?]
  dsimp only
  cases character? (codeOf (front ++ [last])) with
  | some c => rfl
  | none => simp

theorem writeAll_group (packing : output.style = .characters) (settled : output.pending = [])
    (index : Nat) {group : List Int} (eight : group.length = groupSize) :
    writeAll index (group.map .int) output =
      (groupFaults (index + 7) group, output.say (groupText group)) := by
  rcases List.eq_nil_or_concat' group with rfl | ⟨front, last, rfl⟩
  · cases eight
  · have seven : (front.map Json.int).length = 7 := by
      rw [List.length_append, List.length_singleton, groupSize] at eight
      rw [List.length_map]
      omega
    have room : output.pending.length + (front.map Json.int).length < groupSize := by
      rw [settled, seven]
      decide
    have few := writeAll_few packing index room
    rw [settled, List.nil_append] at few
    rw [List.map_append, writeAll_append, few, seven]
    dsimp only [List.map_singleton]
    rw [writeAll_last packing (index + 7) eight, List.nil_append, ← settled]
    rfl

/-- Of any numbers those stay pending that are left when groups have been taken from the front. -/
theorem pending_writeAll (packing : output.style = .characters) (settled : output.pending = [])
    (index : Nat) (numbers : List Int) :
    (writeAll index (numbers.map .int) output).2.style = .characters ∧
      (writeAll index (numbers.map .int) output).2.pending =
        (numbers.drop (groupSize * (numbers.length / groupSize))).map .int := by
  induction size : numbers.length using Nat.strongRecOn generalizing numbers index output with
  | ind length ih =>
    rcases Nat.lt_or_ge length groupSize with few | enough
    · have room : output.pending.length + (numbers.map Json.int).length < groupSize := by
        rw [settled, List.length_map, List.length_nil]
        omega
      rw [writeAll_few packing index room, settled, Nat.div_eq_of_lt few]
      exact ⟨packing, rfl⟩
    · have eight : (numbers.take groupSize).length = groupSize := by
        rw [List.length_take]
        omega
      have fewer : (numbers.drop groupSize).length = length - groupSize := by
        rw [List.length_drop, size]
      have positive : 0 < groupSize := by decide
      obtain ⟨style, pending⟩ := @ih (length - groupSize) (by omega)
        (output.say (groupText (numbers.take groupSize))) packing settled (index + groupSize)
        (numbers.drop groupSize) fewer
      have split : numbers.map Json.int =
          (numbers.take groupSize).map .int ++ (numbers.drop groupSize).map .int := by
        rw [← List.map_append, List.take_append_drop]
      rw [split, writeAll_append, writeAll_group packing settled index eight, List.length_map,
        eight]
      refine ⟨style, pending.trans ?_⟩
      rw [List.drop_drop, Nat.div_eq_sub_div positive enough, Nat.mul_succ, Nat.add_comm]

end Groups

/-- Packing loses nothing. Bits are written to an output in characters without fault; the bits of the
characters that were put out, the most significant first, followed by the pending ones are those that
were written, and less than eight are pending. When arbitrary numbers are written, their count modulo
eight is the count of those that are pending after each, whether it fails or not. Eight numbers that
follow complete groups put out a character, or nothing with a fault at the last of them, and which of
these depends on them alone. -/
theorem packing_loses_nothing :
    let writer : Output := { style := .characters }
    (∀ bits : List Bool, ∃ characters pending,
      writeAll 0 (bits.map .ofBit) writer =
        ([], { writer with text := String.ofList characters, pending := pending.map .ofBit }) ∧
      characters.flatMap bitsOf ++ pending = bits ∧ pending.length < groupSize ∧
      ∀ c ∈ characters, c.toNat < 2 ^ groupSize) ∧
    (∀ numbers : List Int,
      (writeAll 0 (numbers.map .int) writer).2.pending.length = numbers.length % groupSize) ∧
    (∀ earlier group : List Int, earlier.length % groupSize = 0 → group.length = groupSize →
      let before := writeAll 0 (earlier.map .int) writer
      writeAll 0 ((earlier ++ group).map .int) writer =
        (before.1 ++ groupFaults (earlier.length + 7) group,
          { before.2 with text := before.2.text ++ groupText group })) := by
  intro writer
  refine ⟨?_, ?_, ?_⟩
  · intro bits
    have fresh : Shows .characters [] writer := .characters [] [] rfl (by decide)
    obtain ⟨written, done, displays⟩ := fresh.writeAll 0 bits
    rw [List.nil_append] at displays
    cases displays with
    | characters full pending whole few =>
      refine ⟨packed full, pending, done, ?_, few, fun _ => toNat_lt_of_mem_packed⟩
      rw [flatMap_bitsOf_packed full whole]
  · intro numbers
    obtain ⟨-, pending⟩ := pending_writeAll (show writer.style = _ from rfl) rfl 0 numbers
    have split := Nat.div_add_mod numbers.length groupSize
    rw [pending, List.length_map, List.length_drop]
    omega
  · intro earlier group complete eight before
    obtain ⟨style, pending⟩ := pending_writeAll (show writer.style = _ from rfl) rfl 0 earlier
    have all : groupSize * (earlier.length / groupSize) = earlier.length := by
      have split := Nat.div_add_mod earlier.length groupSize
      omega
    rw [all, List.drop_length, List.map_nil] at pending
    rw [List.map_append, writeAll_append, List.length_map, Nat.zero_add,
      writeAll_group style pending earlier.length eight]
    rfl

/-- A group that fails does not keep the next one from spelling a letter. -/
theorem packing_loses_nothing_afterFault :
    let failing : List Int := [0, 0, 0, 0, 0, 0, 0, -1]
    let letter : List Int := [0, 1, 0, 0, 0, 0, 0, 1]
    writeAll 0 ((failing ++ letter).map .int) { style := .characters } =
      ([(7, .noCharacter (-1))], { style := .characters, text := "A" }) := by
  intro failing letter
  have groups := packing_loses_nothing.2.2 failing letter (by decide) (by decide)
  exact groups.trans rfl

end Output

end BitMachine
