import Mathlib.Data.Int.Bitwise
import BitMachine.Proofs.Machine.Frame
import BitMachine.Proofs.Machine.Nesting

/-! Trees of NANDs compute Boolean functions, at every position of numbers without end. If the
leaves of a tree are bits, then all its positions but the lowest compute the formula of all leaves
false; so whether the result is a bit, and may be stored, can be read off the tree. Where values are
traced, they have to be short enough to be written; over bits they always are. -/

set_option autoImplicit false

namespace BitMachine

namespace Integer

theorem testBit_nand (m n : Int) (i : Nat) :
    (nand m n).testBit i = !(m.testBit i && n.testBit i) := by
  cases m with
  | ofNat m =>
    cases n with
    | ofNat n => simp only [nand, Int.testBit, Nat.testBit_and]
    | negSucc n =>
      simp only [nand, Int.testBit, Nat.testBit_xor, Nat.testBit_and]
      cases m.testBit i <;> cases n.testBit i <;> rfl
  | negSucc m =>
    cases n with
    | ofNat n =>
      simp only [nand, Int.testBit, Nat.testBit_xor, Nat.testBit_and]
      cases m.testBit i <;> cases n.testBit i <;> rfl
    | negSucc n =>
      simp only [nand, Int.testBit, Nat.testBit_or]
      cases m.testBit i <;> cases n.testBit i <;> rfl

theorem testBit_self_succ (m : Nat) : m.testBit (m + 1) = false :=
  Nat.testBit_lt_two_pow (Nat.lt_trans (Nat.lt_succ_self m) Nat.lt_two_pow_self)

/-- A number of which no high bit is set is its lowest bit. -/
theorem eq_toNat_of_testBit {n : Int} (high : ∀ i, n.testBit (i + 1) = false) :
    n = (n.testBit 0).toNat := by
  cases n with
  | ofNat m =>
    have small : m < 2 ^ 1 := by
      apply Nat.lt_pow_two_of_testBit
      intro i above
      obtain ⟨j, rfl⟩ := Nat.exists_eq_add_of_le' above
      exact high j
    have cases : m = 0 ∨ m = 1 := by omega
    rcases cases with rfl | rfl
    · rfl
    · rfl
  | negSucc m =>
    have set := high m
    rw [Int.testBit, testBit_self_succ] at set
    cases set

/-- A number of which every high bit is set is negative. -/
theorem neg_of_testBit {n : Int} (high : ∀ i, n.testBit (i + 1) = true) : n < 0 := by
  cases n with
  | ofNat m =>
    have set := high m
    rw [Int.testBit, testBit_self_succ] at set
    cases set
  | negSucc m => exact Int.negSucc_lt_zero m

theorem isSome_writeInteger? {n : Int} (small : -2 ≤ n ∧ n ≤ 1) :
    (Text.writeInteger? n).isSome = true := by
  have cases : n = -2 ∨ n = -1 ∨ n = 0 ∨ n = 1 := by omega
  rcases cases with rfl | rfl | rfl | rfl <;> rfl

theorem testBit_succ_of_bit {n : Int} (bit : n = 0 ∨ n = 1) (i : Nat) :
    n.testBit (i + 1) = false := by
  rcases bit with rfl | rfl
  · exact Nat.zero_testBit (i + 1)
  · exact Nat.testBit_lt_two_pow (Nat.one_lt_two_pow (Nat.succ_ne_zero i))

end Integer

namespace Node

/-- What the NANDs of a tree are applied to in the end. A NAND that lacks its right operand has an
empty slot among its leaves. -/
def leaves : Node → List Node
  | .nand left right => left.leaves ++ right.leaves
  | leaf => [leaf]

/-- The Boolean formula that a tree of NANDs spells, given what its leaves stand for. -/
def formula (leafBit : Node → Bool) : Node → Bool
  | .nand left right => !(left.formula leafBit && right.formula leafBit)
  | leaf => leafBit leaf

/-- The number that a tree of NANDs comes to, given those of its leaves. -/
def combined (magnitude : Node → Int) : Node → Int
  | .nand left right => Integer.nand (left.combined magnitude) (right.combined magnitude)
  | leaf => magnitude leaf

theorem testBit_combined (magnitude : Node → Int) (node : Node) (i : Nat) :
    (node.combined magnitude).testBit i =
      node.formula fun leaf => (magnitude leaf).testBit i := by
  fun_induction Node.combined magnitude node with
  | case1 left right leftIh rightIh =>
    rw [Integer.testBit_nand, leftIh, rightIh, Node.formula]
  | case2 leaf other =>
    unfold Node.formula
    split
    · exact (other _ _ rfl).elim
    · rfl

theorem formula_congr {leafBit leafBit' : Node → Bool} {node : Node}
    (same : ∀ leaf ∈ node.leaves, leafBit leaf = leafBit' leaf) :
    node.formula leafBit = node.formula leafBit' := by
  fun_induction Node.leaves node with
  | case1 left right leftIh rightIh =>
    rw [List.forall_mem_append] at same
    rw [Node.formula, Node.formula, leftIh same.1, rightIh same.2]
  | case2 leaf other =>
    unfold Node.formula
    split
    · exact (other _ _ rfl).elim
    · exact same leaf (List.mem_singleton.mpr rfl)

/-- The numbers that the NANDs of a tree come to can be written. -/
def Legible (magnitude : Node → Int) : Node → Prop
  | .nand left right => left.Legible magnitude ∧ right.Legible magnitude ∧
      (Text.writeInteger? ((Node.nand left right).combined magnitude)).isSome = true
  | _ => True

theorem combined_bounds {magnitude : Node → Int} {node : Node}
    (bits : ∀ leaf ∈ node.leaves, magnitude leaf = 0 ∨ magnitude leaf = 1) :
    -2 ≤ node.combined magnitude ∧ node.combined magnitude ≤ 1 := by
  fun_induction Node.leaves node with
  | case1 left right leftIh rightIh =>
    rw [List.forall_mem_append] at bits
    rw [Node.combined]
    exact Integer.nand_narrow (leftIh bits.1) (rightIh bits.2)
  | case2 leaf other =>
    have bit := bits leaf (List.mem_singleton.mpr rfl)
    unfold Node.combined
    split
    · exact (other _ _ rfl).elim
    · omega

theorem legible_of_bits {magnitude : Node → Int} {node : Node}
    (bits : ∀ leaf ∈ node.leaves, magnitude leaf = 0 ∨ magnitude leaf = 1) :
    node.Legible magnitude := by
  fun_induction Node.leaves node with
  | case1 left right leftIh rightIh =>
    have all := List.forall_mem_append.mp bits
    exact ⟨leftIh all.1, rightIh all.2, Integer.isSome_writeInteger? (combined_bounds bits)⟩
  | case2 leaf other =>
    unfold Node.Legible
    split
    · exact (other _ _ rfl).elim
    · trivial

end Node

namespace Action

variable {options : Options} {machine : Machine} {magnitude : Node → Int} {node : Node}

/-- A node has a value on a machine, which is no address but a number. -/
def Amounts (options : Options) (machine : Machine) (node : Node) (n : Int) : Prop :=
  ∃ kind after, kind ≠ .address ∧ evaluate options node machine = .ok ⟨.int n, kind⟩ after

/-- The value of an operand is the same wherever it stands, if there are calls enough. -/
theorem Amounts.within {n : Int} (amounts : Amounts options machine node n) {frames : Nat}
    (enough : node.callDepth ≤ frames) {other : Machine} (grown : machine.Grows other) :
    ∃ kind after, kind ≠ .address ∧
      evaluateWithin options frames node other = .ok ⟨.int n, kind⟩ after := by
  obtain ⟨kind, after, bit, done⟩ := amounts
  obtain ⟨later, again⟩ := evaluate_of_grows grown done
  rw [evaluate, evaluateWithin_of_callDepth (callDepth_le_of_ok done) enough] at again
  exact ⟨kind, later, bit, again⟩

theorem Amounts.present {n : Int} (amounts : Amounts options machine node n) :
    node.isAbsent = false := by
  obtain ⟨kind, after, -, done⟩ := amounts
  obtain ⟨rest, -, arises⟩ := exists_arises_of_ok done
  exact arises.present

theorem evaluateWithin_nand (kinds : options.magnitudeGuards = false) {rest : Nat}
    {left right : Node} {between after : Machine} {m n : Int} {first second : Kind}
    (present : right.isAbsent = false)
    (leftValue : evaluateWithin options rest left machine = .ok ⟨.int m, first⟩ between)
    (rightValue : evaluateWithin options rest right between = .ok ⟨.int n, second⟩ after)
    (firstBit : first ≠ .address) (secondBit : second ≠ .address)
    (legible : 3 ≤ options.verbosity → (Text.writeInteger? (Integer.nand m n)).isSome = true) :
    ∃ later, evaluateWithin options (rest + callsOf (.nand left right)) (.nand left right) machine =
      .ok (.bit (.int (Integer.nand m n))) later := by
  have bits : ¬(options.holdsAddress ⟨.int m, first⟩ || options.holdsAddress ⟨.int n, second⟩) =
      true := by
    rw [Options.holdsAddress_of_kinds kinds, Options.holdsAddress_of_kinds kinds, Bool.or_eq_true,
      Value.isAddress_iff, Value.isAddress_iff, not_or]
    exact ⟨firstBit, secondBit⟩
  have combines : nandValue options ⟨.int m, first⟩ ⟨.int n, second⟩ after =
      .ok (.bit (.int (Integer.nand m n))) after := by
    rw [nandValue_int options rfl rfl, if_neg bits]
  let event : Event := .evaluate (Node.nand left right).kindName (.bit (.int (Integer.nand m n)))
  have shown : event.level ≤ options.verbosity → event.render?.isSome = true :=
    fun traces => Option.isSome_map.trans (legible traces)
  obtain ⟨trace, recorded⟩ := record_of_legible shown after
  rw [evaluateWithin_add, evaluateOver_nand, present, if_neg Bool.false_ne_true]
  have done : (evaluateWithin options rest left >>= fun first =>
      evaluateWithin options rest right >>= nandValue options first) machine =
      .ok (.bit (.int (Integer.nand m n))) after := by
    rw [bind_of_ok _ leftValue, bind_of_ok _ rightValue]
    exact combines
  exact ⟨_, (bind_of_ok _ done).trans (bind_of_ok _ recorded)⟩

/-- A tree of NANDs is evaluated to the number that its leaves are combined to. -/
theorem evaluateWithin_combined (kinds : options.magnitudeGuards = false)
    (leaves : ∀ leaf ∈ node.leaves, Amounts options machine leaf (magnitude leaf))
    (legible : 3 ≤ options.verbosity → node.Legible magnitude) {frames : Nat}
    (enough : node.callDepth ≤ frames) {other : Machine} (grown : machine.Grows other) :
    ∃ kind after, kind ≠ .address ∧ (∀ left right, node = .nand left right → kind = .bit) ∧
      evaluateWithin options frames node other =
        .ok ⟨.int (node.combined magnitude), kind⟩ after := by
  fun_induction Node.leaves node generalizing frames other with
  | case1 left right leftIh rightIh =>
    rw [List.forall_mem_append] at leaves
    obtain ⟨rest, rfl⟩ :=
      Nat.exists_eq_add_of_le' (Nat.le_trans (callsOf_le_callDepth _) enough)
    rw [Node.callDepth, Nat.add_le_add_iff_right] at enough
    have present : right.isAbsent = false := by
      rw [Bool.eq_false_iff]
      intro absent
      cases right <;> cases absent
      exact Bool.noConfusion (leaves.2 .absent (List.mem_singleton.mpr rfl)).present
    obtain ⟨first, between, firstBit, -, leftValue⟩ :=
      leftIh leaves.1 (fun traces => (legible traces).1) (show left.callDepth ≤ rest by omega) grown
    have reached := ((evaluateWithin_readsOnly options rest left).grows other).ok leftValue
    -- The right operand meets the cells that the left one made, which change no value.
    obtain ⟨second, after, secondBit, -, rightValue⟩ :=
      rightIh leaves.2 (fun traces => (legible traces).2.1) (show right.callDepth ≤ rest by omega)
        (grown.trans reached)
    obtain ⟨later, done⟩ := evaluateWithin_nand kinds present leftValue rightValue firstBit
      secondBit fun traces => (legible traces).2.2
    rw [Node.combined]
    exact ⟨.bit, later, by decide, fun _ _ _ => rfl, done⟩
  | case2 leaf single =>
    have same : leaf.combined magnitude = magnitude leaf := by
      unfold Node.combined
      split
      · exact (single _ _ rfl).elim
      · rfl
    rw [same]
    obtain ⟨kind, after, bit, done⟩ :=
      (leaves leaf (List.mem_singleton.mpr rfl)).within enough grown
    exact ⟨kind, after, bit, fun left right shape => (single left right shape).elim, done⟩

section Storing

variable {address : Json} {place source : Node} {k n : Int} {after : Machine}

theorem store_of_legible (places : 2 ≤ options.verbosity → (Text.writeInteger? k).isSome = true)
    (small : -2 ≤ n ∧ n ≤ 1) (machine : Machine) :
    ∃ trace, store options (.int k) (.bit (.int n)) machine =
      match machine.context.memory.write (.int k) (.bit (.int n)) with
      | .ok memory => .ok () { machine with context.memory := memory, trace := trace }
      | .error fault => .error fault { machine with trace } := by
  have legible : (Event.write (.int k) (.bit (.int n))).level ≤ options.verbosity →
      (Event.write (.int k) (.bit (.int n))).render?.isSome = true := by
    intro traces
    obtain ⟨first, shown⟩ := Option.isSome_iff_exists.mp (places traces)
    obtain ⟨second, written⟩ := Option.isSome_iff_exists.mp (Integer.isSome_writeInteger? small)
    have value : (Value.bit (.int n)).render? = some second := written
    rw [Event.render?, Json.display?_int, shown, value]
    rfl
  obtain ⟨trace, recorded⟩ := record_of_legible legible machine
  rcases store_run options (.int k) (.bit (.int n)) machine with ⟨trace, -, run⟩ | ⟨failed, -⟩
  · exact ⟨trace, run⟩
  · rw [recorded] at failed
    cases failed

theorem assignment_of_legal
    (evaluated : evaluate options source machine = .ok (.bit (.int n)) after)
    (leads : Leads options machine address place (.int k)) (inside : -1 ≤ k)
    (places : 2 ≤ options.verbosity → (Text.writeInteger? k).isSome = true)
    (legal : n = 0 ∨ n = 1) :
    ∃ last, execute options (.assignment address place source) machine = .ok () last ∧
      machine.context.memory.Replaced last.context.memory (.int k) (.bit (.int n)) := by
  obtain ⟨between, grown, same⟩ := assignment_of_leads evaluated leads
  obtain ⟨trace, stored⟩ := store_of_legible places (show -2 ≤ n ∧ n ≤ 1 by omega) between
  have checked : Memory.checkStorable (.bit (.int n)) = .ok () := by
    rcases legal with rfl | rfl <;> rfl
  have written : ∃ memory, between.context.memory.write (.int k) (.bit (.int n)) = .ok memory := by
    rw [Memory.write_int _ k checked]
    split
    · rcases legal with rfl | rfl <;> exact ⟨_, rfl⟩
    · rw [if_pos (by omega)]
      exact ⟨_, rfl⟩
  obtain ⟨memory, written⟩ := written
  rw [written] at stored
  exact ⟨_, same.trans stored, grown.memory.replaced written⟩

theorem assignment_of_illegal
    (evaluated : evaluate options source machine = .ok (.bit (.int n)) after)
    (leads : Leads options machine address place (.int k))
    (places : 2 ≤ options.verbosity → (Text.writeInteger? k).isSome = true)
    (small : -2 ≤ n ∧ n ≤ 1) (illegal : ¬(n = 0 ∨ n = 1)) :
    ∃ last, execute options (.assignment address place source) machine =
      .error (.illegalValue (.int n)) last := by
  obtain ⟨between, grown, same⟩ := assignment_of_leads evaluated leads
  obtain ⟨trace, stored⟩ := store_of_legible places small between
  have refused : Memory.checkStorable (.bit (.int n)) = .error (.illegalValue (.int n)) := by
    rw [← isLegalBit_int, Bool.not_eq_true] at illegal
    rw [Memory.checkStorable, illegal]
    rfl
  rw [Memory.write_unchecked _ _ refused] at stored
  exact ⟨_, same.trans stored⟩

end Storing

/-- If all leaves are bits, the positions of a tree of NANDs beyond the lowest are those of the tree
with all leaves 0. -/
theorem testBit_succ_combined (bits : ∀ leaf ∈ node.leaves, magnitude leaf = 0 ∨ magnitude leaf = 1)
    (i : Nat) : (node.combined magnitude).testBit (i + 1) = node.formula fun _ => false := by
  rw [Node.testBit_combined]
  apply Node.formula_congr
  intro leaf inside
  exact Integer.testBit_succ_of_bit (bits leaf inside) i

/-- Trees of NANDs compute Boolean functions, and whether the result may be stored can be read off
the tree. Where kinds are looked at, a tree whose leaves have values that are no addresses has a
value unless it is nested too deeply, and the bit of that value at each position is the formula of
the tree, applied to the bits of the leaves at the position. If the tree is a NAND and all leaves
are bits, then it can be assigned to a cell or the jump register if and only if the formula of all
leaves false is false; what is stored is the formula of the leaves. What is traced along the way is
supposed to be short enough to be written. -/
theorem nand_trees_compute_formulas (kinds : options.magnitudeGuards = false)
    (leaves : ∀ leaf ∈ node.leaves, Amounts options machine leaf (magnitude leaf)) :
    ((3 ≤ options.verbosity → node.Legible magnitude) → options.frames < node.callDepth →
      ∃ after, evaluate options node machine = .error (.nestedTooDeeply none) after) ∧
    ((3 ≤ options.verbosity → node.Legible magnitude) → node.callDepth ≤ options.frames →
      ∃ n kind after, kind ≠ .address ∧ evaluate options node machine = .ok ⟨.int n, kind⟩ after ∧
        ∀ i, n.testBit i = node.formula fun leaf => (magnitude leaf).testBit i) ∧
    (node.callDepth ≤ options.frames → (∃ left right, node = .nand left right) →
      (∀ leaf ∈ node.leaves, magnitude leaf = 0 ∨ magnitude leaf = 1) →
      ∀ (address : Json) (place : Node) (k : Int), -1 ≤ k →
        (2 ≤ options.verbosity → (Text.writeInteger? k).isSome = true) →
        Leads options machine address place (.int k) →
        if node.formula (fun _ => false) = false then
          ∃ after, execute options (.assignment address place node) machine = .ok () after ∧
            machine.context.memory.Replaced after.context.memory (.int k)
              (.bit (.int (node.formula fun leaf => magnitude leaf = 1).toNat))
        else ∃ after n, execute options (.assignment address place node) machine =
          .error (.illegalValue (.int n)) after) := by
  refine ⟨?_, ?_, ?_⟩
  · intro legible deep
    -- With as many calls as it takes the tree has a value, so only the limit is in the way.
    obtain ⟨kind, after, -, -, done⟩ :=
      evaluateWithin_combined kinds leaves legible (Nat.le_refl _) (.refl machine)
    exact evaluateWithin_of_deep deep (Nat.le_of_lt deep) done
  · intro legible enough
    obtain ⟨kind, after, bit, -, done⟩ :=
      evaluateWithin_combined kinds leaves legible enough (.refl machine)
    exact ⟨_, kind, after, bit, done, Node.testBit_combined magnitude node⟩
  · rintro enough ⟨left, right, shape⟩ bits address place k inside places leads
    have legible : 3 ≤ options.verbosity → node.Legible magnitude :=
      fun _ => Node.legible_of_bits bits
    obtain ⟨kind, after, -, isBit, done⟩ :=
      evaluateWithin_combined kinds leaves legible enough (.refl machine)
    cases isBit left right shape
    have high := testBit_succ_combined bits
    split
    · next storable =>
      rw [storable] at high
      have lowest : (node.combined magnitude).testBit 0 =
          node.formula fun leaf => magnitude leaf = 1 := by
        rw [Node.testBit_combined]
        apply Node.formula_congr
        intro leaf inside
        rcases bits leaf inside with zero | one
        · rw [zero]
          rfl
        · rw [one]
          rfl
      have stored := Integer.eq_toNat_of_testBit high
      rw [lowest] at stored
      rw [stored] at done
      apply assignment_of_legal done leads inside places
      cases node.formula fun leaf => magnitude leaf = 1
      · exact Or.inl rfl
      · exact Or.inr rfl
    · next unstorable =>
      rw [Bool.not_eq_false] at unstorable
      rw [unstorable] at high
      have negative := Integer.neg_of_testBit high
      have small := Node.combined_bounds bits
      obtain ⟨last, failed⟩ := assignment_of_illegal done leads places small (by omega)
      exact ⟨last, _, failed⟩

/-- Whether the bit in cell 7 and a constant 1 are both 1. -/
def conjunction : Node :=
  .nand (.nand (.variable (.int 7)) (.constant (.int 1)))
    (.nand (.variable (.int 7)) (.constant (.int 1)))

theorem nand_trees_compute_formulas_conjunction :
    let machine : Machine :=
      { context := { memory := { cells := [(.int 7, .bit (.int 1))] } }, input := .prepared [] }
    ∃ after, execute {} (.assignment (.int 0) .absent conjunction) machine = .ok () after ∧
      machine.context.memory.Replaced after.context.memory (.int 0) (.bit (.int 1)) := by
  intro machine
  have leaves : ∀ leaf ∈ conjunction.leaves, Amounts {} machine leaf 1 := by
    have pair : Amounts {} machine (.variable (.int 7)) 1 ∧
        Amounts {} machine (.constant (.int 1)) 1 :=
      ⟨⟨.bit, _, nofun, rfl⟩, ⟨.undefined, _, nofun, rfl⟩⟩
    show ∀ leaf ∈ [Node.variable (.int 7), .constant (.int 1), .variable (.int 7),
      .constant (.int 1)], Amounts {} machine leaf 1
    rw [List.forall_mem_cons, List.forall_mem_cons, List.forall_mem_cons, List.forall_mem_singleton]
    exact ⟨pair.1, pair.2, pair.1, pair.2⟩
  obtain ⟨-, -, stores⟩ := nand_trees_compute_formulas rfl leaves
  exact stores (by decide) ⟨_, _, rfl⟩ (fun _ _ => Or.inr rfl) (.int 0) .absent 0 (by decide)
    (fun _ => rfl) rfl

/-- A NAND with 0, applied to 0 a number of times. -/
def nandsOfZero : Nat → Node :=
  Node.nested (.nand · (.constant (.int 0))) (.constant (.int 0))

theorem leaves_nandsOfZero (levels : Nat) :
    ∀ leaf ∈ (nandsOfZero levels).leaves, leaf = .constant (.int 0) := by
  induction levels with
  | zero => exact fun leaf inside => List.mem_singleton.mp inside
  | succ levels ih =>
    rw [nandsOfZero, Node.nested, Node.leaves, List.forall_mem_append]
    exact ⟨ih, fun leaf inside => List.mem_singleton.mp inside⟩

/-- A tree over zeros that comes to 0 by its formula, with 521 NANDs inside one another. -/
def tallTree : Node :=
  .nand (nandsOfZero 520) (nandsOfZero 1)

theorem tallTree_nested_too_deeply :
    let machine : Machine := { input := .prepared [] }
    (∀ leaf ∈ tallTree.leaves, Amounts {} machine leaf 0) ∧
    tallTree.formula (fun _ => false) = false ∧
    evaluate {} tallTree machine = .error (.nestedTooDeeply none) machine ∧
    execute {} (.assignment (.int 0) .absent tallTree) machine =
      .error (.nestedTooDeeply none) machine := by
  intro machine
  have zero : Amounts {} machine (.constant (.int 0)) 0 := ⟨.undefined, _, nofun, rfl⟩
  have failed : evaluate {} tallTree machine = .error (.nestedTooDeeply none) machine := by
    rw [evaluate, show ({} : Options).frames = 988 + callsOf tallTree from rfl, evaluateWithin_add]
    have inner : evaluateWithin {} 988 (nandsOfZero 520) machine =
        .error (.nestedTooDeeply none) machine :=
      evaluateWithin_nested (strict_nand {} _) (fun _ => rfl) _ (by decide) machine
    exact bind_of_error _ (strict_nand {} _ _ _ _ _ _ inner)
  refine ⟨?_, ?_, failed, bind_of_error _ failed⟩
  · intro leaf inside
    rw [tallTree, Node.leaves, List.mem_append] at inside
    rcases inside with left | right
    · rw [leaves_nandsOfZero 520 leaf left]
      exact zero
    · rw [leaves_nandsOfZero 1 leaf right]
      exact zero
  · have high : ∀ levels, (nandsOfZero (levels + 1)).formula (fun _ => false) = true := by
      intro levels
      rw [nandsOfZero, Node.nested, Node.formula]
      exact congrArg not (Bool.and_false _)
    rw [tallTree, Node.formula, high 519, high 0]
    rfl

end Action

end BitMachine
