import BitMachine.Proofs.Machine.Lockstep
import BitMachine.Proofs.Machine.StepLimit

/-! What a run shows. Whether bits are collected, written as digits or packed into characters makes no
difference to a run of a complete program, and what is written is determined by what would be
collected. -/

set_option autoImplicit false

namespace BitMachine

/-- A bit as a value. -/
def Json.ofBit (bit : Bool) : Json :=
  .int bit.toInt

theorem Json.Bit.exists_ofBit {value : Json} (legal : value.Bit) : ∃ bit, value = .ofBit bit := by
  rcases legal with rfl | rfl
  · exact ⟨false, rfl⟩
  · exact ⟨true, rfl⟩

namespace Output

/-- Bits as decimal digits. -/
def digits (bits : List Bool) : String :=
  String.ofList (bits.map fun bit => if bit then '1' else '0')

/-- The number that a group of bits spells, the most significant first. -/
def groupCode (group : List Bool) : Nat :=
  group.foldl (fun code bit => 2 * code + bit.toNat) 0

/-- A character for every eight bits. What is left at the end is dropped. -/
def packed : List Bool → List Char
  | a :: b :: c :: d :: e :: f :: g :: h :: rest =>
    Char.ofNat (groupCode [a, b, c, d, e, f, g, h]) :: packed rest
  | _ => []

/-- The text that bits are shown as. -/
def shown : OutputStyle → List Bool → String
  | .characters, bits => String.ofList (packed bits)
  | _, bits => digits bits

section Packing

theorem packed_of_few {bits : List Bool} (few : bits.length < groupSize) : packed bits = [] := by
  match bits with
  | [] | [_] | [_, _] | [_, _, _] | [_, _, _, _] | [_, _, _, _, _] | [_, _, _, _, _, _]
  | [_, _, _, _, _, _, _] => rfl
  | _ :: _ :: _ :: _ :: _ :: _ :: _ :: _ :: rest =>
    simp only [List.length_cons, groupSize] at few
    omega

theorem packed_of_eight {group : List Bool} (eight : group.length = groupSize) :
    packed group = [Char.ofNat (groupCode group)] := by
  match group with
  | [_, _, _, _, _, _, _, _] => rfl

/-- Complete groups are packed apart from what follows them. -/
theorem packed_append : (full : List Bool) → full.length % groupSize = 0 → (rest : List Bool) →
    packed (full ++ rest) = packed full ++ packed rest
  | [], _, _ => rfl
  | [_], whole, _ | [_, _], whole, _ | [_, _, _], whole, _ | [_, _, _, _], whole, _
  | [_, _, _, _, _], whole, _ | [_, _, _, _, _, _], whole, _
  | [_, _, _, _, _, _, _], whole, _ => by cases whole
  | _ :: _ :: _ :: _ :: _ :: _ :: _ :: _ :: full, whole, rest => by
    have fewer : full.length % groupSize = 0 := by
      simp only [List.length_cons, groupSize] at whole ⊢
      omega
    simp only [List.cons_append, packed, packed_append full fewer rest]

theorem foldl_code_lt (group : List Bool) {code width : Nat} (small : code < 2 ^ width) :
    group.foldl (fun code bit => 2 * code + bit.toNat) code < 2 ^ (width + group.length) := by
  induction group generalizing code width with
  | nil => exact small
  | cons bit group ih =>
    have double : 2 * code + bit.toNat < 2 ^ (width + 1) := by
      have one := bit.toNat_le
      rw [Nat.pow_succ]
      omega
    have further := ih double
    rwa [Nat.add_assoc, Nat.add_comm 1] at further

theorem groupCode_lt (group : List Bool) : groupCode group < 2 ^ group.length := by
  have bound := foldl_code_lt group (show 0 < 2 ^ 0 by decide)
  rwa [Nat.zero_add] at bound

theorem toInt_eq (bit : Bool) : bit.toInt = (bit.toNat : Int) := by
  cases bit <;> rfl

theorem appendBit_toInt (code : Nat) (bit : Bool) :
    Integer.appendBit (code : Int) bit.toInt = ((2 * code + bit.toNat : Nat) : Int) := by
  have small : bit.toNat < 2 ^ 1 := by cases bit <;> decide
  have joined : 2 * code + bit.toNat = 2 * code ||| bit.toNat :=
    Nat.two_pow_add_eq_or_of_lt small code
  rw [toInt_eq, Integer.appendBit_natCast, joined]

theorem foldl_toInt (group : List Bool) (code : Nat) :
    (group.map Bool.toInt).foldl Integer.appendBit (code : Int) =
      (group.foldl (fun code bit => 2 * code + bit.toNat) code : Nat) := by
  induction group generalizing code with
  | nil => rfl
  | cons bit group ih =>
    rw [List.map_cons, List.foldl_cons, List.foldl_cons, appendBit_toInt]
    exact ih _

/-- Eight bits are written as the character that they spell. -/
theorem character?_group {group : List Bool} (eight : group.length = groupSize) :
    character? (codeOf (group.map Bool.toInt)) = some (Char.ofNat (groupCode group)) := by
  have code : codeOf (group.map Bool.toInt) = (groupCode group : Nat) := foldl_toInt group 0
  have small := groupCode_lt group
  rw [eight, groupSize] at small
  have valid : (groupCode group).isValidChar := Or.inl (by omega)
  unfold character? Char.ofNat
  rw [code, if_neg (by omega), dif_pos valid]
  exact dif_pos valid

/-- Output in a style, after bits have been written to it and nothing else. -/
inductive Shows : OutputStyle → List Bool → Output → Prop
  | digits (bits : List Bool) : Shows .digits bits { style := .digits, text := digits bits }
  | characters (full pending : List Bool) (whole : full.length % groupSize = 0)
      (few : pending.length < groupSize) :
      Shows .characters (full ++ pending)
        { style := .characters
          pending := pending.map Json.ofBit
          text := String.ofList (packed full) }

theorem Shows.text {style : OutputStyle} {bits : List Bool} {output : Output}
    (displays : Shows style bits output) : output.text = shown style bits := by
  cases displays with
  | digits => rfl
  | characters full pending whole few =>
    show String.ofList (packed full) = String.ofList (packed (full ++ pending))
    rw [packed_append full whole, packed_of_few few, List.append_nil]

theorem digits_append (bits more : List Bool) :
    digits (bits ++ more) = digits bits ++ digits more := by
  unfold digits
  rw [List.map_append, String.ofList_append]

theorem spell_ofBit (output : Output) (bit : Bool) :
    output.spell (.ofBit bit) = (none, output.say (digits [bit])) := by
  cases bit <;> rfl

theorem ofList_concat (letters : List Char) (c : Char) :
    String.ofList (letters ++ [c]) = (String.ofList letters).push c := by
  apply String.toList_inj.mp
  rw [String.toList_ofList, String.toList_push, String.toList_ofList]

theorem pack_shows {full pending : List Bool} (whole : full.length % groupSize = 0)
    (few : pending.length < groupSize) (bit : Bool) :
    let output : Output :=
      { style := .characters
        pending := pending.map Json.ofBit
        text := String.ofList (packed full) }
    ∃ written, output.pack (.ofBit bit) = (none, written) ∧
      Shows .characters (full ++ pending ++ [bit]) written := by
  intro output
  have group : output.pending ++ [.ofBit bit] = (pending ++ [bit]).map Json.ofBit := by
    rw [List.map_append]
    rfl
  have longer : (pending ++ [bit]).length = pending.length + 1 := List.length_append
  unfold pack
  rw [group, List.append_assoc]
  dsimp only
  rw [List.length_map]
  by_cases partly : (pending ++ [bit]).length ≠ groupSize
  · rw [if_pos partly]
    exact ⟨_, rfl, .characters full (pending ++ [bit]) whole (by omega)⟩
  · have eight := Decidable.not_not.mp partly
    have ints : ((pending ++ [bit]).map Json.ofBit).mapM Json.whole? =
        some ((pending ++ [bit]).map Bool.toInt) := by
      rw [← mapM_whole?, List.map_map]
      rfl
    rw [if_neg partly, ints]
    dsimp only
    rw [character?_group eight]
    refine ⟨_, rfl, ?_⟩
    have longerFull : (full ++ (pending ++ [bit])).length % groupSize = 0 := by
      rw [List.length_append, eight, Nat.add_mod_right]
      exact whole
    have complete := Shows.characters (full ++ (pending ++ [bit])) [] longerFull (by decide)
    rw [List.append_nil, packed_append full whole, packed_of_eight eight, ofList_concat] at complete
    exact complete

/-- A bit is written without fault, and shown behind those before it. -/
theorem Shows.write {style : OutputStyle} {bits : List Bool} {output : Output}
    (displays : Shows style bits output) (bit : Bool) :
    ∃ written, output.write (.ofBit bit) = (none, written) ∧
      Shows style (bits ++ [bit]) written := by
  cases displays with
  | digits =>
    refine ⟨_, spell_ofBit _ bit, ?_⟩
    unfold say
    rw [← digits_append]
    exact .digits _
  | characters full pending whole few => exact pack_shows whole few bit

end Packing

end Output

/-- Two machines of which one collects the bits that the other one shows in a style. Otherwise they
are the same. -/
structure Machine.Renders (style : OutputStyle) (left right : Machine) : Prop where
  context : right.context = left.context
  input : right.input = left.input
  trace : right.trace = left.trace
  silent : left.input.prompt = ""
  collects : left.output.style = .collected
  shown : ∃ bits, left.output.bits.toList = bits.map Json.ofBit ∧ Output.Shows style bits right.output

namespace Action

section Primitives

variable {style : OutputStyle}

theorem load_renders (address : Json) :
    Matches (Machine.Renders style) Value (load address) (load address) := by
  intro left right related
  unfold load
  rw [related.context]
  cases left.context.memory.read address with
  | ok entry =>
    exact ⟨rfl, rfl, related.input, related.trace, related.silent, related.collects, related.shown⟩
  | error fault => exact ⟨rfl, related⟩

theorem write_renders (address : Json) (value : Value) :
    Matches (Machine.Renders style) Unit (write address value) (write address value) := by
  intro left right related
  unfold write
  rw [related.context]
  cases left.context.memory.write address value with
  | ok memory =>
    exact ⟨rfl, rfl, related.input, related.trace, related.silent, related.collects, related.shown⟩
  | error fault => exact ⟨rfl, related⟩

/-- One style collects a bit where the other shows it. -/
theorem emit_renders {bit : Json} (legal : bit.Bit) :
    Matches (Machine.Renders style) Unit (emit bit) (emit bit) := by
  obtain ⟨bit, rfl⟩ := legal.exists_ofBit
  intro left right related
  obtain ⟨bits, collected, displays⟩ := related.shown
  obtain ⟨written, wrote, displays⟩ := displays.write bit
  have kept : left.output.write (.ofBit bit) =
      (none, { left.output with bits := left.output.bits.push (.ofBit bit) }) := by
    unfold Output.write
    split
    · rfl
    · next other => cases related.collects.symm.trans other
    · next other => cases related.collects.symm.trans other
  unfold emit
  rw [kept, wrote]
  refine ⟨rfl, related.context, related.input, related.trace, related.silent, related.collects,
    bits ++ [bit], ?_, displays⟩
  rw [List.map_append, ← collected, Array.toList_push]
  rfl

theorem prompt_next (input : Input) : input.next.2.prompt = input.prompt := by
  match input with
  | .prepared [] | .prepared (_ :: _) | .console _ [] => rfl
  | .console _ (line :: _) =>
    rw [Input.next]
    cases Input.bitOf? (Text.trimBoth Text.isBlank line.toList) <;> rfl

theorem request_renders : Matches (Machine.Renders style) Json request request := by
  intro left right related
  have prompts := prompt_next left.input
  unfold request
  rw [related.input, related.silent, Output.say_empty, Output.say_empty]
  rw [related.silent] at prompts
  rcases drawn : left.input.next with ⟨fault | bit, input⟩
  · rw [drawn] at prompts
    exact ⟨rfl, related.context, rfl, related.trace, prompts, related.collects, related.shown⟩
  · rw [drawn] at prompts
    exact ⟨rfl, related.context, rfl, related.trace, prompts, related.collects, related.shown⟩

theorem count_renders : Matches (Machine.Renders style) Nat count count := by
  intro left right related
  have context : (counted right).context = (counted left).context := by
    unfold counted
    rw [related.context]
  exact ⟨congrArg Context.steps context.symm, context, related.input, related.trace,
    related.silent, related.collects, related.shown⟩

theorem renders_congruence (style : OutputStyle) (options : Options) :
    StepCongruence (Matches (Machine.Renders style)) options options where
  guards := rfl
  frames := rfl
  jumps := rfl
  limits := rfl
  returns := matches_pure
  fails _ := matches_throw _
  exceeds _ := matches_throw _
  continues := Matches.bind
  records event := by
    intro left right related
    unfold record
    rw [related.trace]
    split
    · split
      · exact ⟨rfl, related.context, related.input, rfl, related.silent, related.collects,
          related.shown⟩
      · exact ⟨rfl, related⟩
    · exact ⟨rfl, related⟩
  loads := load_renders
  writes := write_renders
  registers := fun _ _ related => ⟨by rw [related.context], related⟩
  counts := count_renders
  notes number := by
    intro left right related
    exact ⟨rfl, by rw [related.context], related.input, related.trace, related.silent,
      related.collects, related.shown⟩

end Primitives

section Runs

variable {style : OutputStyle} {options : Options} {program : Program} {line : Line}

/-- A complete line prints nothing but bits. -/
theorem step_renders (program : Program) (complete : LineOf.Complete line) :
    Matches (Machine.Renders style) (Option Line) (step options program line)
      (step options program line) := by
  apply (renders_congruence style options).step_related program line
  · intro bit prints
    have executable := complete.instruction
    rw [prints] at executable
    exact emit_renders executable
  · intro _
    exact request_renders

theorem mem_of_step {machine after : Machine} {next : Line}
    (stepped : step options program line machine = .ok (some next) after) :
    next ∈ program.lines := by
  rw [step_eq] at stepped
  obtain ⟨_, _, -, stepped⟩ := bind_eq_ok.mp stepped
  obtain ⟨_, _, -, stepped⟩ := bind_eq_ok.mp stepped
  obtain ⟨number, _, -, arrived⟩ := bind_eq_ok.mp stepped
  unfold arrive at arrived
  split at arrived
  · obtain ⟨_, _, -, arrived⟩ := bind_eq_ok.mp arrived
    cases arrived
  · split at arrived
    · cases arrived
    · cases found : program.line? number with
      | none =>
        rw [found] at arrived
        cases arrived
      | some goal =>
        rw [found] at arrived
        obtain ⟨_, _, -, arrived⟩ := bind_eq_ok.mp arrived
        cases arrived
        exact mem_of_line? found

theorem runFrom_renders (complete : ∀ line ∈ program.lines, LineOf.Complete line) (fuel : Nat)
    (inside : line ∈ program.lines) :
    Matches (Machine.Renders style) (Option Line) (runFrom options program fuel line)
      (runFrom options program fuel line) := by
  induction fuel generalizing line with
  | zero => exact matches_pure _
  | succ fuel ih =>
    intro left right related
    rw [runFrom_succ]
    rcases (step_renders program (complete line inside) left right related).cases with
      ⟨next, between, between', ran, ran', kept⟩ | ⟨fault, between, between', ran, ran', kept⟩
    · rw [bind_of_ok _ ran, bind_of_ok _ ran']
      cases next with
      | none => exact ⟨rfl, kept⟩
      | some next => exact ih (mem_of_step ran) between between' kept
    · rw [bind_of_error _ ran, bind_of_error _ ran']
      exact ⟨rfl, kept⟩

/-- A run of a complete program comes to the same, whichever way its output is written. -/
theorem run_renders (options : Options) (complete : program.Complete) :
    Matches (Machine.Renders style) Unit (run options program) (run options program) := by
  have whole : Matches (Machine.Renders style) (Option Line)
      (runFor options options.patience program) (runFor options options.patience program) := by
    obtain ⟨entry, found⟩ := Option.isSome_iff_exists.mp complete.entry
    rw [runFor_of_entry found]
    apply Matches.located
    · intro left right related
      rw [related.context]
    · exact runFrom_renders complete.lines _ (mem_of_line? found)
  unfold run
  apply Matches.traced rfl
  · intro left right related
    exact ⟨related.context, related.input, congrArg Trace.start related.trace, related.silent,
      related.collects, related.shown⟩
  · intro left right related
    exact ⟨related.context, related.input, congrArg Trace.close related.trace, related.silent,
      related.collects, related.shown⟩
  · apply whole.bind
    intro left
    cases left with
    | none => exact matches_pure ()
    | some line => exact matches_throw _

end Runs

end Action

end BitMachine
