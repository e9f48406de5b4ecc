import BitMachine.CommandLine.Folder
import Mathlib.Data.String.Basic

/-! Paths as texts: a path that is shown can be read again. -/

set_option autoImplicit false

namespace BitMachine.CommandLine.Path

theorem splitOnAux_slash (before part rest : List Char) (found : List String) :
    String.splitOnAux (.ofList (before ++ part ++ rest)) "/" ⟨String.utf8Len before⟩
        ⟨String.utf8Len before + String.utf8Len part⟩ 0 found =
      found.reverse ++ (List.splitOnPPrepend (· == '/') rest part.reverse).map String.ofList := by
  induction rest generalizing before part found with
  | nil =>
    have ended := (String.atEnd_of_valid (before ++ part) []).mpr rfl
    have cut := String.extract_of_valid before part []
    rw [String.utf8Len_append] at ended
    rw [String.splitOnAux, if_pos ended]
    dsimp only
    rw [cut, List.reverse_cons, List.splitOnPPrepend_nil, List.reverse_reverse]
    rfl
  | cons c rest ih =>
    have inside : ¬String.Pos.Raw.atEnd (.ofList (before ++ part ++ c :: rest))
        ⟨String.utf8Len (before ++ part)⟩ = true := by
      rw [String.atEnd_of_valid]
      exact List.cons_ne_nil _ _
    have here := String.get_of_valid (before ++ part) (c :: rest)
    have next := String.next_of_valid (before ++ part) c rest
    have cut := String.extract_of_valid before part (c :: rest)
    rw [String.utf8Len_append] at inside here next
    have slash : String.Pos.Raw.get "/" 0 = '/' := String.get_of_valid [] ['/']
    have skipped : String.Pos.Raw.next "/" 0 = ⟨1⟩ := String.next_of_valid [] '/' []
    have passed : String.Pos.Raw.atEnd "/" ⟨1⟩ = true := (String.atEnd_of_valid ['/'] []).mpr rfl
    rw [String.splitOnAux, if_neg inside, here, List.headD_cons, slash, skipped]
    dsimp only
    rw [if_pos passed, next, List.splitOnPPrepend_cons_eq_if]
    split
    · next same =>
      rw [beq_iff_eq] at same
      subst same
      have back : String.Pos.Raw.unoffsetBy
          ⟨String.utf8Len before + String.utf8Len part + Char.utf8Size '/'⟩ ⟨1⟩ =
          ⟨String.utf8Len before + String.utf8Len part⟩ := rfl
      have step := ih (before ++ part ++ ['/']) [] (String.ofList part :: found)
      simp only [String.utf8Len_append, String.utf8Len_cons, String.utf8Len_nil, Nat.zero_add,
        Nat.add_zero, List.append_nil, List.append_assoc, List.cons_append, List.nil_append,
        List.reverse_nil, List.reverse_cons] at step
      rw [back, cut, List.append_assoc, Nat.add_assoc, step, List.map_cons, List.reverse_reverse]
      rfl
    · have step := ih before (part ++ [c]) found
      simp only [String.utf8Len_append, String.utf8Len_cons, String.utf8Len_nil, Nat.zero_add,
        List.append_assoc, List.cons_append, List.nil_append, List.reverse_append,
        List.reverse_cons, List.reverse_nil] at step
      have stay : String.Pos.Raw.unoffsetBy
          ⟨String.utf8Len before + String.utf8Len part⟩ 0 =
          ⟨String.utf8Len before + String.utf8Len part⟩ := rfl
      rw [stay, next, List.append_assoc, Nat.add_assoc, step]

/-- The parts of a path are what stands between slashes. -/
theorem splitOn_slash (text : String) :
    text.splitOn "/" = (text.toList.splitOn '/').map String.ofList := by
  have split := splitOnAux_slash [] [] text.toList []
  rw [List.nil_append, List.nil_append, String.ofList_toList] at split
  exact split

/-- No part holds a slash. -/
theorem slash_not_mem_splitOn {letters part : List Char} (inside : part ∈ letters.splitOn '/') :
    '/' ∉ part := by
  induction letters generalizing part with
  | nil =>
    rw [List.splitOn_nil, List.mem_singleton] at inside
    rw [inside]
    exact List.not_mem_nil
  | cons c letters ih =>
    rw [List.splitOn_cons_eq_if_modifyHead] at inside
    split at inside
    · rcases List.mem_cons.mp inside with rfl | later
      · exact List.not_mem_nil
      · exact ih later
    · next other =>
      obtain ⟨first, others, split⟩ := List.exists_cons_of_ne_nil (List.splitOn_ne_nil '/' letters)
      rw [split] at ih
      rw [split, List.modifyHead_cons] at inside
      rcases List.mem_cons.mp inside with rfl | later
      · intro slash
        rcases List.mem_cons.mp slash with rfl | slash
        · exact other (beq_self_eq_true _)
        · exact ih List.mem_cons_self slash
      · exact ih (List.mem_cons_of_mem _ later)

/-- A path as it comes from a text. -/
structure Clean (path : Path) : Prop where
  root : path.root = "" ∨ path.root = "/" ∨ path.root = "//"
  named : ∀ part ∈ path.parts, part ≠ "" ∧ part ≠ "."
  whole : ∀ part ∈ path.parts, '/' ∉ part.toList

theorem clean_ofString (text : String) : (ofString text).Clean where
  root := by
    unfold ofString rootOf
    dsimp only
    split
    · exact .inr (.inl rfl)
    · exact .inr (.inr rfl)
    · exact .inr (.inl rfl)
    · exact .inl rfl
  named part inside := by
    have kept := (List.mem_filter.mp inside).2
    rwa [Bool.and_eq_true, bne_iff_ne, bne_iff_ne] at kept
  whole part inside := by
    have found := (List.mem_filter.mp inside).1
    rw [splitOn_slash] at found
    obtain ⟨letters, member, rfl⟩ := List.mem_map.mp found
    rw [String.toList_ofList]
    exact slash_not_mem_splitOn member

theorem mem_parts_extend {path : Path} {ending part : String}
    (inside : part ∈ (path.extend ending).parts) :
    part ∈ path.parts ∨ part = ending ∨ ∃ last ∈ path.parts, part = last ++ ending := by
  unfold extend at inside
  split at inside
  · exact .inr (.inl (List.mem_singleton.mp inside))
  · next last before reversed =>
    have member : ∀ other ∈ last :: before, other ∈ path.parts := by
      rw [← reversed]
      exact fun other => List.mem_reverse.mp
    rcases List.mem_cons.mp (List.mem_reverse.mp inside) with rfl | earlier
    · exact .inr (.inr ⟨last, member _ List.mem_cons_self, rfl⟩)
    · exact .inl (member _ (List.mem_cons_of_mem _ earlier))

/-- A path stays clean when its last part gets an ending. -/
theorem Clean.extend {path : Path} (clean : path.Clean) {ending : String}
    (unslashed : '/' ∉ ending.toList) (long : 1 < ending.length) :
    (path.extend ending).Clean where
  root := by
    unfold Path.extend
    split <;> exact clean.root
  named part inside := by
    have short : ∀ other : String, 1 < other.length → other ≠ "" ∧ other ≠ "." := by
      intro other two
      constructor <;> rintro rfl <;> exact absurd two (by decide)
    rcases mem_parts_extend inside with kept | rfl | ⟨last, -, rfl⟩
    · exact clean.named part kept
    · exact short _ long
    · exact short _ (by rw [String.length_append]; omega)
  whole part inside := by
    rcases mem_parts_extend inside with kept | rfl | ⟨last, member, rfl⟩
    · exact clean.whole part kept
    · exact unslashed
    · rw [String.toList_append, List.mem_append, not_or]
      exact ⟨clean.whole last member, unslashed⟩

theorem rootOf_slashes {c : Char} (other : c ≠ '/') (rest : List Char) {root : String}
    (slashes : root = "" ∨ root = "/" ∨ root = "//") :
    rootOf (root.toList ++ c :: rest) = root := by
  rcases slashes with rfl | rfl | rfl
  · show rootOf (c :: rest) = ""
    unfold rootOf
    split
    · next same => exact absurd (List.cons.inj same).1 other
    · next same => exact absurd (List.cons.inj same).1 other
    · next same => exact absurd (List.cons.inj same).1 other
    · rfl
  · show rootOf ('/' :: c :: rest) = "/"
    unfold rootOf
    split
    · rfl
    · next same => exact absurd (List.cons.inj (List.cons.inj same).2).1 other
    · rfl
    · next none => exact absurd rfl (none _)
  · show rootOf ('/' :: '/' :: c :: rest) = "//"
    unfold rootOf
    split
    · next same => exact absurd (List.cons.inj (List.cons.inj (List.cons.inj same).2).2).1 other
    · rfl
    · next single same => exact (single _ (List.cons.inj same).2.symm).elim
    · next none => exact absurd rfl (none _)

theorem splitOn_slashes (letters : List Char) {root : String}
    (slashes : root = "" ∨ root = "/" ∨ root = "//") :
    ∃ count, (root.toList ++ letters).splitOn '/' =
      List.replicate count [] ++ letters.splitOn '/' := by
  rcases slashes with rfl | rfl | rfl
  · exact ⟨0, rfl⟩
  · exact ⟨1, List.splitOn_append_cons_self [] letters⟩
  · refine ⟨2, ?_⟩
    show (([] : List Char) ++ '/' :: ([] ++ '/' :: letters)).splitOn '/' = _
    rw [List.splitOn_append_cons_self, List.splitOn_append_cons_self]
    rfl

/-- A name without slashes is a path of one part. -/
theorem ofString_of_not_mem {name : String} (whole : '/' ∉ name.toList)
    (named : name ≠ "" ∧ name ≠ ".") : ofString name = { parts := [name] } := by
  obtain ⟨c, rest, spelled⟩ := List.exists_cons_of_ne_nil
    (show name.toList ≠ [] from fun empty => named.1 (String.toList_eq_nil_iff.mp empty))
  have first : c ≠ '/' := by
    rintro rfl
    exact whole (spelled ▸ List.mem_cons_self)
  have root : rootOf name.toList = "" := by
    rw [spelled]
    exact rootOf_slashes first rest (.inl rfl)
  have kept : [name].filter (fun part => part != "" && part != ".") = [name] := by
    rw [List.filter_eq_self, List.forall_mem_singleton, Bool.and_eq_true, bne_iff_ne, bne_iff_ne]
    exact named
  unfold ofString
  rw [splitOn_slash, List.splitOn_eq_singleton whole, List.map_singleton, String.ofList_toList,
    kept, root]

/-- Joined parts start as the first of them does. -/
theorem intercalate_eq_cons {first : String} (some : first ≠ "") (whole : '/' ∉ first.toList)
    (others : List String) :
    ∃ c rest, ("/".intercalate (first :: others)).toList = c :: rest ∧ c ≠ '/' := by
  have joined : ∃ rest, ("/".intercalate (first :: others)).toList = first.toList ++ rest := by
    cases others with
    | nil => exact ⟨[], by rw [String.intercalate_singleton, List.append_nil]⟩
    | cons second others =>
      rw [String.intercalate_cons_cons, String.toList_append, String.toList_append,
        List.append_assoc]
      exact ⟨_, rfl⟩
  obtain ⟨rest, joined⟩ := joined
  obtain ⟨c, tail, spelled⟩ := List.exists_cons_of_ne_nil
    (show first.toList ≠ [] from fun empty => some (String.toList_eq_nil_iff.mp empty))
  rw [spelled] at joined whole
  exact ⟨c, tail ++ rest, joined, fun same => whole (same ▸ List.mem_cons_self)⟩

/-- Parts that are joined by slashes are found between them. -/
theorem splitOn_parts {parts : List String} (some : parts ≠ [])
    (whole : ∀ part ∈ parts, '/' ∉ part.toList) :
    (("/".intercalate parts).toList.splitOn '/').map String.ofList = parts := by
  have joined : ("/".intercalate parts).toList = ['/'].intercalate (parts.map String.toList) :=
    String.toList_intercalate
  have undo : String.ofList ∘ String.toList = id := funext fun _ => String.ofList_toList
  rw [joined, List.splitOn_intercalate, List.map_map, undo, List.map_id]
  · intro piece member
    obtain ⟨part, inside, rfl⟩ := List.mem_map.mp member
    exact whole part inside
  · rwa [ne_eq, List.map_eq_nil_iff]

/-- What is shown of a path is read as that path. -/
theorem ofString_render {path : Path} (clean : path.Clean) : ofString path.render = path := by
  obtain ⟨root, parts⟩ := path
  obtain ⟨slashes, named, whole⟩ := clean
  dsimp only at slashes named whole
  cases parts with
  | nil =>
    unfold ofString
    rw [splitOn_slash]
    rcases slashes with rfl | rfl | rfl <;> decide
  | cons first others =>
    obtain ⟨c, rest, spelled, other⟩ := intercalate_eq_cons
      (named first List.mem_cons_self).1 (whole first List.mem_cons_self) others
    obtain ⟨count, split⟩ := splitOn_slashes ("/".intercalate (first :: others)).toList slashes
    have nothing : (List.replicate count (String.ofList [])).filter
        (fun part => part != "" && part != ".") = [] := by
      rw [List.filter_eq_nil_iff]
      intro part inside
      rw [List.eq_of_mem_replicate inside]
      decide
    have kept : (first :: others).filter (fun part => part != "" && part != ".") =
        first :: others := by
      rw [List.filter_eq_self]
      intro part inside
      rw [Bool.and_eq_true, bne_iff_ne, bne_iff_ne]
      exact named part inside
    show ofString (root ++ "/".intercalate (first :: others)) = _
    unfold ofString
    rw [splitOn_slash, String.toList_append, split, List.map_append, List.map_replicate,
      splitOn_parts (List.cons_ne_nil _ _) whole, List.filter_append, nothing, kept, spelled,
      rootOf_slashes other rest slashes]
    rfl

end BitMachine.CommandLine.Path
