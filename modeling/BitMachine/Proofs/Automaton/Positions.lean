import BitMachine.Proofs.Automaton.Scanning
import BitMachine.Proofs.Grammar.Positions

/-! Where reading from the bottom up may stop. Every position that the automaton keeps is that of a
keyword, so whatever is wrong with a text, it is found at a position of the text or at its end. -/

set_option autoImplicit false

namespace BitMachine.Automaton

namespace Stack

/-- The positions that are kept for the symbols on a stack. -/
def positions (stack : Stack) : List Nat :=
  stack.flatMap fun frame => frame.payload.positions

theorem positions_append (front back : Stack) :
    positions (front ++ back) = positions front ++ positions back :=
  List.flatMap_append

theorem positions_reduceOnce? {stack reduced : Stack} {lookahead : Lookahead}
    (step : reduceOnce? stack lookahead = some reduced) : positions reduced ⊆ positions stack := by
  unfold reduceOnce? at step
  cases complete : (state stack).reduction? with
  | none =>
    rw [complete] at step
    cases step
  | some entry =>
    obtain ⟨production, followers⟩ := entry
    rw [complete] at step
    dsimp only at step
    split at step
    · unfold reduce? at step
      dsimp only at step
      split at step
      · next payload next built leads =>
        cases step
        have split : positions stack = positions (stack.take production.rhs.length) ++
            positions (stack.drop production.rhs.length) := by
          rw [← positions_append, List.take_append_drop]
        have kept : payload.positions ⊆ positions (stack.take production.rhs.length) := by
          refine List.Subset.trans (Production.positions_of_build built) ?_
          rw [List.flatMap_map]
          intro position inside
          simpa only [positions, List.mem_flatMap, List.mem_reverse] using inside
        rw [split]
        exact List.append_subset.mpr
          ⟨List.Subset.trans kept (List.subset_append_left _ _), List.subset_append_right _ _⟩
      · cases step
    · cases step

theorem positions_settle (stack : Stack) (lookahead : Lookahead) :
    positions (settle stack lookahead) ⊆ positions stack := by
  unfold settle
  generalize 16 * (stack.length + 1) = fuel
  induction fuel generalizing stack with
  | zero => exact List.Subset.refl _
  | succ fuel ih =>
    rw [settleWithin_succ]
    cases step : reduceOnce? stack lookahead with
    | none => exact List.Subset.refl _
    | some reduced => exact List.Subset.trans (ih reduced) (positions_reduceOnce? step)

theorem positions_drafts? {stack : Stack} {drafts : List Draft}
    (accepted : drafts? stack = some drafts) :
    drafts.flatMap Draft.positions ⊆ positions stack := by
  unfold drafts? at accepted
  split at accepted
  · cases accepted
    intro position inside
    simpa only [positions, List.flatMap_cons, List.flatMap_nil, List.append_nil, Payload.positions,
      List.mem_flatMap, List.mem_reverse] using inside
  · cases accepted

end Stack

/-- No position in what reading gives lies behind `bound`. -/
def Placed (bound : Nat) : Except Rejection (List Draft) → Prop
  | .ok drafts => ∀ position ∈ drafts.flatMap Draft.positions, position ≤ bound
  | .error rejection => rejection.position ≤ bound

/-- Keywords are found at positions of the text, and so is whatever keeps them from being read. -/
theorem readAll_placed {fuel : Nat} {stack : Stack} {last bound : Nat} {cursor : Cursor}
    (kept : ∀ position ∈ Stack.positions stack, position ≤ bound) (latest : last ≤ bound)
    (ends : cursor.stop = bound) : Placed bound (readAll fuel stack last cursor) := by
  induction fuel generalizing stack last cursor with
  | zero => exact latest
  | succ fuel ih =>
    have skipped := Cursor.reaches_skipWhile Text.isSeparator cursor
    generalize found : cursor.skipWhile Text.isSeparator = start at skipped
    have here : start.position ≤ bound := ends ▸ skipped.position_le
    unfold readAll
    simp only [found]
    split
    · split
      · next drafts accepted =>
        intro position inside
        have settled := Stack.positions_drafts? accepted inside
        exact kept position (Stack.positions_settle stack none settled)
      · exact latest
    · split
      · exact here
      · next keyword after next =>
        split
        · next state leads =>
          have moved := Cursor.reaches_advance keyword.letters start
          rw [(nextKeyword?_sound next).2] at moved
          refine ih ?_ here ?_
          · intro position inside
            rcases List.mem_append.mp inside with first | rest
            · exact List.mem_singleton.mp first ▸ here
            · exact kept position (Stack.positions_settle stack _ rest)
          · exact (skipped.trans moved).total.trans ends
        · exact here

theorem duplicate?_mem {seen : List Json} {lines : List Line} {line : Line}
    (found : duplicate? seen lines = some line) : line ∈ lines := by
  induction lines generalizing seen with
  | nil => cases found
  | cons first rest ih =>
    unfold duplicate? at found
    split at found
    · cases found
      exact List.mem_cons_self
    · exact List.mem_cons_of_mem first (ih found)

theorem position_le_of_assemble {drafts : List Draft} {bound : Nat} {rejection : Rejection}
    (kept : ∀ position ∈ drafts.flatMap Draft.positions, position ≤ bound)
    (refused : assemble drafts = .error rejection) : rejection.position ≤ bound := by
  unfold assemble at refused
  split at refused
  · next found =>
    cases refused
    obtain ⟨draft, inside, objects⟩ := List.exists_of_findSome?_eq_some found
    unfold Draft.objection? at objects
    split at objects
    · cases objects
      exact Nat.zero_le bound
    · obtain ⟨position, clash, rfl⟩ := Option.map_eq_some_iff.mp objects
      refine kept position (List.mem_flatMap.mpr ⟨draft, inside, List.mem_cons_of_mem _ ?_⟩)
      exact Option.mem_toList.mpr clash
  · next found =>
    cases refused
    obtain ⟨draft, inside, rfl⟩ := List.mem_map.mp (duplicate?_mem found)
    exact kept _ (List.mem_flatMap.mpr ⟨draft, inside, List.mem_cons_self⟩)
  · cases refused
    exact Nat.zero_le bound
  · cases refused

/-- A text is refused at one of its positions or at its end. -/
theorem position_le_of_parse {source : String} {rejection : Rejection}
    (refused : parse source = .error rejection) : rejection.position ≤ source.length := by
  have placed : Placed source.length (readAll (source.length + 1) [] 0 (.ofString source)) :=
    readAll_placed nofun (Nat.zero_le _) (Cursor.stop_ofString source)
  unfold parse at refused
  cases read : readAll (source.length + 1) [] 0 (.ofString source) with
  | error other =>
    rw [read] at refused placed
    cases refused
    exact placed
  | ok drafts =>
    rw [read] at refused placed
    exact position_le_of_assemble placed refused

end BitMachine.Automaton
