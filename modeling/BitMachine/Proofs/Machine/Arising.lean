import BitMachine.Proofs.Machine.Growth

/-! How values arise. That an expression has a value goes back to values of its parts, to what
memory holds, and to checks that were passed. -/

set_option autoImplicit false

namespace BitMachine

/-- What an address leads to: the bit of the jump register, or the content of a cell. -/
inductive Memory.Holds (memory : Memory) (address : Json) : Value → Prop where
  | register (named : address.is registerAddress = true) :
      memory.Holds address (.bit memory.register)
  | cell (other : address.is registerAddress = false) : memory.Holds address (memory.cell address)

/-- Cells that come into being change nothing about what an address leads to. -/
theorem Memory.Extends.holds {before after : Memory} (grown : before.Extends after) {address : Json}
    {value : Value} (held : after.Holds address value) : before.Holds address value := by
  cases held with
  | register named =>
    rw [grown.register]
    exact .register named
  | cell other =>
    rw [(grown.cells address).cell]
    exact .cell other

/-- Every value that an address leads to is accepted. -/
def Memory.Throughout (memory : Memory) (accepts : Value → Prop) : Prop :=
  ∀ address value, memory.Holds address value → accepts value

theorem Memory.Throughout.extends {before after : Memory} {accepts : Value → Prop}
    (held : before.Throughout accepts) (grown : before.Extends after) :
    after.Throughout accepts :=
  fun address value found => held address value (grown.holds found)

theorem Memory.throughout_fresh {accepts : Value → Prop} (register : accepts (.bit (.int 0)))
    (cell : accepts {}) : ({} : Memory).Throughout accepts := by
  intro address value held
  cases held with
  | register named => exact register
  | cell other => exact cell

theorem Value.isAddress_iff {value : Value} : value.isAddress = true ↔ value.kind = .address := by
  rw [isAddress, beq_iff_eq]

namespace Options

variable {options : Options}

/-- Where kinds are looked at, a value of kind address is taken for an address and no other. -/
theorem holdsAddress_of_kinds (kinds : options.magnitudeGuards = false) (value : Value) :
    options.holdsAddress value = value.isAddress := by
  rw [holdsAddress, kinds, if_neg Bool.false_ne_true]

theorem refusesToFollow_of_kinds (kinds : options.magnitudeGuards = false) (value : Value) :
    options.refusesToFollow value = !value.isAddress := by
  rw [refusesToFollow, kinds, if_neg Bool.false_ne_true]

theorem kind_ne_address (kinds : options.magnitudeGuards = false) {value : Value}
    (bit : options.holdsAddress value = false) : value.kind ≠ .address := by
  rw [holdsAddress_of_kinds kinds, Bool.eq_false_iff] at bit
  exact fun pointer => bit (Value.isAddress_iff.mpr pointer)

end Options

namespace Action

variable {options : Options} {machine after : Machine} {value : Value}

/-- An operand was followed to a value that is no address. -/
structure Followed (options : Options) (rest : Nat) (machine : Machine) (child : Node)
    (value : Value) : Prop where
  operand : ∃ operand after, evaluateWithin options rest child machine = .ok operand after ∧
    options.refusesToFollow operand = false
  held : ∃ address, machine.context.memory.Holds address value
  bit : options.holdsAddress value = false

/-- How the value of an expression arises, where `rest` calls are left for its parts. -/
inductive Arises (options : Options) (rest : Nat) (machine : Machine) : Node → Value → Prop where
  | constant (magnitude : Json) :
      Arises options rest machine (.constant magnitude) (.undefined magnitude)
  | variable {address : Json} {value : Value}
      (held : machine.context.memory.Holds address value) :
      Arises options rest machine (.variable address) value
  | single {left : Node} {value : Value} {after : Machine}
      (evaluated : evaluateWithin options rest left machine = .ok value after) :
      Arises options rest machine (.nand left .absent) value
  | nand {left right : Node} {first second : Value} {between after : Machine} {m n : Int}
      (present : right.isAbsent = false)
      (leftValue : evaluateWithin options rest left machine = .ok first between)
      (grown : machine.Grows between)
      (rightValue : evaluateWithin options rest right between = .ok second after)
      (firstBit : options.holdsAddress first = false)
      (secondBit : options.holdsAddress second = false)
      (firstWhole : first.magnitude.whole? = some m)
      (secondWhole : second.magnitude.whole? = some n) :
      Arises options rest machine (.nand left right) (.bit (.int (Integer.nand m n)))
  | addressOf {child : Node} {operand : Value} {after : Machine}
      (named : (!options.magnitudeGuards && isRegister child) = false)
      (evaluated : evaluateWithin options rest child machine = .ok operand after)
      (bit : options.holdsAddress operand = false)
      (natural : operand.magnitude.below? 0 = some false) :
      Arises options rest machine (.addressOf child) (.address operand.magnitude)
  | valueAt {child : Node} {value : Value}
      (followed : Followed options rest machine child value) :
      Arises options rest machine (.valueAt child) value
  | valueBeyond {child : Node} {value : Value}
      (followed : Followed options rest machine child value) :
      Arises options rest machine (.valueBeyond child) value

theorem Arises.present {rest : Nat} {node : Node} (arises : Arises options rest machine node value) :
    node.isAbsent = false := by
  cases arises <;> rfl

theorem needed_eq_ok {α : Type} {result : Option α} {found : α}
    (done : needed result machine = .ok found after) : result = some found ∧ after = machine := by
  cases result with
  | none => cases done
  | some value =>
    cases done
    exact ⟨rfl, rfl⟩

theorem holds_of_load {address : Json} (done : load address machine = .ok value after) :
    machine.context.memory.Holds address value := by
  rcases load_cases address with ⟨named, register⟩ | ⟨other, -, cell⟩ | ⟨fault, failed⟩
  · rw [register machine] at done
    cases done
    exact .register named
  · rw [cell machine] at done
    cases done
    exact .cell other
  · rw [failed machine] at done
    cases done

theorem holds_of_variableValue {address : Json}
    (done : variableValue address machine = .ok value after) :
    machine.context.memory.Holds address value := by
  obtain ⟨inside, between, checked, reads⟩ := bind_eq_ok.mp done
  obtain ⟨-, rfl⟩ := needed_eq_ok checked
  cases inside with
  | true => exact holds_of_load reads
  | false => cases reads

theorem nandValue_eq_ok {left right : Value}
    (done : nandValue options left right machine = .ok value after) :
    options.holdsAddress left = false ∧ options.holdsAddress right = false ∧
      ∃ m n, left.magnitude.whole? = some m ∧ right.magnitude.whole? = some n ∧
        value = .bit (.int (Integer.nand m n)) := by
  rw [nandValue_eq] at done
  split at done
  · cases done
  · next bits =>
    rw [Bool.or_eq_true, not_or, Bool.not_eq_true, Bool.not_eq_true] at bits
    obtain ⟨m, between, first, done⟩ := bind_eq_ok.mp done
    obtain ⟨n, last, second, done⟩ := bind_eq_ok.mp done
    cases done
    exact ⟨bits.1, bits.2, m, n, (needed_eq_ok first).1, (needed_eq_ok second).1, rfl⟩

theorem addressValue_eq_ok {operand : Value}
    (done : addressValue options operand machine = .ok value after) :
    options.holdsAddress operand = false ∧ operand.magnitude.below? 0 = some false ∧
      value = .address operand.magnitude := by
  rw [addressValue_eq] at done
  split at done
  · cases done
  · next bit =>
    split at done
    · cases done
    · obtain ⟨below, between, checked, done⟩ := bind_eq_ok.mp done
      cases below with
      | true => cases done
      | false =>
        cases done
        exact ⟨Bool.not_eq_true _ ▸ bit, (needed_eq_ok checked).1, rfl⟩

theorem follow_eq_ok {operator : Dereference} {operand : Value}
    (done : follow options operator operand machine = .ok value after) :
    options.refusesToFollow operand = false ∧ options.holdsAddress value = false ∧
      ∃ address, machine.context.memory.Holds address value := by
  rw [follow_eq] at done
  split at done
  · cases done
  · next followed =>
    obtain ⟨below, between, checked, follows⟩ := bind_eq_ok.mp done
    obtain ⟨-, rfl⟩ := needed_eq_ok checked
    cases below with
    | true => cases follows
    | false =>
      obtain ⟨address, later, computed, reads⟩ := bind_eq_ok.mp follows
      obtain ⟨-, rfl⟩ := needed_eq_ok computed
      obtain ⟨content, last, loaded, ends⟩ := bind_eq_ok.mp reads
      split at ends
      · cases ends
      · next bit =>
        cases ends
        exact ⟨Bool.not_eq_true _ ▸ followed, Bool.not_eq_true _ ▸ bit, address,
          holds_of_load loaded⟩

/-- The operators that follow an address pass on what they find. -/
theorem followed_of_ok {rest : Nat} {operator : Dereference} {child : Node}
    (done : (evaluateWithin options rest child >>= follow options operator) machine =
      .ok value after) : Followed options rest machine child value := by
  obtain ⟨operand, between, evaluated, done⟩ := bind_eq_ok.mp done
  obtain ⟨followed, bit, address, held⟩ := follow_eq_ok done
  have grown := ((evaluateWithin_readsOnly options rest child).grows machine).ok evaluated
  exact ⟨⟨operand, between, evaluated, followed⟩, ⟨address, grown.memory.holds held⟩, bit⟩

theorem arises_of_evaluateOver {rest : Nat} {node : Node}
    (done : evaluateOver options (evaluateWithin options rest) node machine = .ok value after) :
    Arises options rest machine node value := by
  cases node with
  | constant magnitude =>
    cases done
    exact .constant magnitude
  | «variable» address => exact .variable (holds_of_variableValue done)
  | nand left right =>
    rw [evaluateOver_nand] at done
    cases present : right.isAbsent with
    | true =>
      rw [present] at done
      cases right <;> first | exact .single done | cases present
    | false =>
      rw [present] at done
      obtain ⟨first, between, leftValue, done⟩ := bind_eq_ok.mp done
      obtain ⟨second, last, rightValue, done⟩ := bind_eq_ok.mp done
      obtain ⟨firstBit, secondBit, m, n, firstWhole, secondWhole, rfl⟩ := nandValue_eq_ok done
      have grown := ((evaluateWithin_readsOnly options rest left).grows machine).ok leftValue
      exact .nand present leftValue grown rightValue firstBit secondBit firstWhole secondWhole
  | addressOf child =>
    rw [evaluateOver_addressOf] at done
    split at done
    · cases done
    · next named =>
      obtain ⟨operand, between, evaluated, done⟩ := bind_eq_ok.mp done
      obtain ⟨bit, natural, rfl⟩ := addressValue_eq_ok done
      exact .addressOf (Bool.not_eq_true _ ▸ named) evaluated bit natural
  | valueBeyond child => exact .valueBeyond (followed_of_ok done)
  | valueAt child => exact .valueAt (followed_of_ok done)
  | _ => cases done

/-- Whatever has a value has it from its parts. -/
theorem arises_of_ok {rest : Nat} {node : Node}
    (done : evaluateWithin options (rest + callsOf node) node machine = .ok value after) :
    Arises options rest machine node value := by
  rw [evaluateWithin_add] at done
  obtain ⟨found, between, evaluated, done⟩ := bind_eq_ok.mp done
  obtain ⟨_, last, -, done⟩ := bind_eq_ok.mp done
  cases done
  exact arises_of_evaluateOver evaluated

theorem exists_arises_of_ok {frames : Nat} {node : Node}
    (done : evaluateWithin options frames node machine = .ok value after) :
    ∃ rest, frames = rest + callsOf node ∧ Arises options rest machine node value := by
  rcases Nat.lt_or_ge frames (callsOf node) with few | many
  · rw [evaluateWithin_of_lt few] at done
    cases done
  · obtain ⟨rest, rfl⟩ := Nat.exists_eq_add_of_le' many
    exact ⟨rest, rfl, arises_of_ok done⟩

end Action

end BitMachine
