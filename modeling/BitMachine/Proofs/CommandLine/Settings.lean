import BitMachine.CommandLine.Arguments

/-! Arguments that choose how a program is to be run, in any order and on both sides of what they are
about, are read as the request they spell. -/

set_option autoImplicit false

namespace BitMachine.CommandLine

/-- A word that is not taken for a switch. -/
def Plain (word : String) : Prop :=
  classify word = .ok (.plain word)

/-- A choice that is made by switches, each spelled in full. -/
inductive Setting where
  | characters
  | input (bits : String)
  | indirectGoto
  | magnitudeGuards
  /-- A limit, and how it is written. -/
  | stepLimit (numeral : String) (limit : Int)
  /-- The letter of the switch may be repeated. -/
  | verbose (more : Nat)
deriving DecidableEq, Repr

namespace Setting

def words : Setting → List String
  | .characters => ["--ascii"]
  | .input bits => ["--input", bits]
  | .indirectGoto => ["--indirect-goto"]
  | .magnitudeGuards => ["--legacy-guards"]
  | .stepLimit numeral _ => ["--max-steps", numeral]
  | .verbose more => [String.ofList ('-' :: 'v' :: List.replicate more 'v')]

/-- Bits are spelled by zeros, ones and blanks, and a limit by a numeral. -/
def Sound : Setting → Prop
  | .input bits => ∀ c ∈ bits.toList, c = '0' ∨ c = '1' ∨ Text.isBlank c = true
  | .stepLimit numeral limit => Plain numeral ∧ Text.readInteger numeral = some limit
  | _ => True

def input? : Setting → Option String
  | .input bits => some bits
  | _ => none

def limit? : Setting → Option Int
  | .stepLimit _ limit => some limit
  | _ => none

/-- How many letters of a setting ask for a more detailed trace. -/
def verbosity : Setting → Nat
  | .verbose more => more + 1
  | _ => 0

end Setting

/-- How often settings ask for a more detailed trace. -/
def totalVerbosity (settings : List Setting) : Nat :=
  settings.foldl (fun total setting => total + setting.verbosity) 0

/-- The request that settings spell. What is given more than once counts as given last. -/
def chosen (settings : List Setting) : Request where
  verbosity := totalVerbosity settings
  characters := settings.contains .characters
  input := (settings.filterMap Setting.input?).getLast?
  indirectGoto := settings.contains .indirectGoto
  magnitudeGuards := settings.contains .magnitudeGuards
  stepLimit := (settings.filterMap Setting.limit?).getLast?.map Json.int

/-- What settings are about. -/
inductive Subject where
  | program (name : String)
  | graph (name : String)
  | emitGraph (name : String)
deriving DecidableEq, Repr

namespace Subject

def name : Subject → String
  | .program name | .graph name | .emitGraph name => name

def words : Subject → List String
  | .program name => [name]
  | .graph name => ["--ast", name]
  | .emitGraph name => ["--emit-ast", name]

/-- The request with its subject. -/
def install : Subject → Request → Request
  | .program name, request => { request with program := some name }
  | .graph name, request => { request with graph := some name }
  | .emitGraph name, request => { request with emitGraph := some name }

end Subject

/-- The words of settings in order. -/
def settingWords (settings : List Setting) : List String :=
  settings.flatMap Setting.words

/-- Arguments: settings, what they are about, and more settings. -/
def command (front : List Setting) (subject : Subject) (back : List Setting) : List String :=
  settingWords front ++ (subject.words ++ settingWords back)

section Classification

theorem classifyAll_cons {word : String} (other : word ≠ "--") (rest : List String) :
    classifyAll (word :: rest) = (do
      let token ← classify word
      return token :: (← classifyAll rest)) := by
  rw [classifyAll.eq_def]
  split
  · next empty => cases empty
  · next same => exact absurd (List.cons.inj same).1 other
  · next same =>
    cases same
    rfl

/-- Wherever the words stand, they are read as the tokens. -/
def Spells (words : List String) (tokens : List Token) : Prop :=
  ∀ rest, classifyAll (words ++ rest) = (classifyAll rest).map (tokens ++ ·)

theorem spells_nil : Spells [] [] := by
  intro rest
  cases read : classifyAll rest with
  | ok tokens => exact read
  | error error => exact read

theorem Spells.append {words others : List String} {tokens more : List Token}
    (first : Spells words tokens) (second : Spells others more) :
    Spells (words ++ others) (tokens ++ more) := by
  intro rest
  rw [List.append_assoc, first, second]
  cases classifyAll rest with
  | ok last => exact congrArg Except.ok (List.append_assoc tokens more last).symm
  | error error => rfl

theorem spells_word {word : String} {token : Token} (read : classify word = .ok token) :
    Spells [word] [token] := by
  have other : word ≠ "--" := by
    rintro rfl
    cases read
  intro rest
  rw [List.singleton_append, classifyAll_cons other, read]
  cases classifyAll rest <;> rfl

/-- The tokens of a setting. -/
def Setting.tokens : Setting → List Token
  | .characters => [.option .characters false none]
  | .input bits => [.option .input false none, .plain bits]
  | .indirectGoto => [.option .indirectGoto false none]
  | .magnitudeGuards => [.option .magnitudeGuards false none]
  | .stepLimit numeral _ => [.option .stepLimit false none, .plain numeral]
  | .verbose 0 => [.option .verbose true none]
  | .verbose (more + 1) =>
    [.option .verbose true (some (String.ofList (List.replicate (more + 1) 'v')))]

/-- The tokens of a subject. -/
def Subject.tokens : Subject → List Token
  | .program name => [.plain name]
  | .graph name => [.option .graph false none, .plain name]
  | .emitGraph name => [.option .emitGraph false none, .plain name]

theorem plain_of_head {word : String} (bare : word.toList.head? ≠ some '-') : Plain word := by
  unfold Plain classify
  split
  · next letters =>
    rw [letters] at bare
    exact absurd rfl bare
  · rfl

theorem splitEquals_of_not_mem {text : List Char} (free : '=' ∉ text) :
    splitEquals text = (text, none) := by
  induction text with
  | nil => rfl
  | cons c rest ih =>
    rw [List.mem_cons, not_or] at free
    rw [splitEquals.eq_def]
    split
    · next empty => cases empty
    · next same => exact absurd (List.cons.inj same).1.symm free.1
    · next same =>
      cases same
      rw [ih free.2]

theorem ofSpelling?_repeated (more : Nat) :
    Switch.ofSpelling? (String.ofList ('-' :: 'v' :: List.replicate (more + 1) 'v')) = none := by
  unfold Switch.ofSpelling?
  rw [List.lookup_eq_none_iff]
  intro entry inside
  rw [bne_iff_ne]
  intro same
  have letters := congrArg String.toList same
  rw [String.toList_ofList] at letters
  simp only [Switch.spellings, List.mem_cons, List.not_mem_nil, or_false] at inside
  rcases inside with rfl | rfl | rfl | rfl | rfl | rfl | rfl | rfl | rfl | rfl | rfl <;> cases letters

theorem joinedReading?_of_not_mem {word : String} (free : '=' ∉ word.toList) :
    joinedReading? word = none := by
  unfold joinedReading?
  rw [splitEquals_of_not_mem free]

/-- A repeated letter is a short switch with the rest of the word attached. -/
theorem classify_repeated (more : Nat) :
    classify (String.ofList ('-' :: 'v' :: List.replicate (more + 1) 'v')) =
      .ok (.option .verbose true (some (String.ofList (List.replicate (more + 1) 'v')))) := by
  have read : readings (String.ofList ('-' :: 'v' :: List.replicate (more + 1) 'v')) =
      [("-v", .option .verbose true (some (String.ofList (List.replicate (more + 1) 'v'))))] := by
    unfold readings
    rw [String.toList_ofList]
    rfl
  have joined : joinedReading? (String.ofList ('-' :: 'v' :: List.replicate (more + 1) 'v')) =
      none := by
    apply joinedReading?_of_not_mem
    simp [List.mem_replicate]
  unfold classify
  rw [read, joined, ofSpelling?_repeated, String.toList_ofList]
  rfl

theorem Setting.spells {setting : Setting} (sound : setting.Sound) :
    Spells setting.words setting.tokens := by
  cases setting with
  | characters => exact spells_word rfl
  | indirectGoto => exact spells_word rfl
  | magnitudeGuards => exact spells_word rfl
  | input bits =>
    have plain : Plain bits := by
      apply plain_of_head
      intro dash
      rcases sound '-' (List.mem_of_head? dash) with zero | one | blank
      · cases zero
      · cases one
      · cases blank
    have switch : classify "--input" = .ok (.option .input false none) := rfl
    exact (spells_word switch).append (spells_word plain)
  | stepLimit numeral limit =>
    have switch : classify "--max-steps" = .ok (.option .stepLimit false none) := rfl
    exact (spells_word switch).append (spells_word sound.1)
  | verbose more =>
    cases more with
    | zero => exact spells_word rfl
    | succ more => exact spells_word (classify_repeated more)

theorem Subject.spells {subject : Subject} (plain : Plain subject.name) :
    Spells subject.words subject.tokens := by
  cases subject with
  | program name => exact spells_word plain
  | graph name =>
    have switch : classify "--ast" = .ok (.option .graph false none) := rfl
    exact (spells_word switch).append (spells_word plain)
  | emitGraph name =>
    have switch : classify "--emit-ast" = .ok (.option .emitGraph false none) := rfl
    exact (spells_word switch).append (spells_word plain)

theorem settingWords_spell {settings : List Setting} (sound : ∀ setting ∈ settings, setting.Sound) :
    Spells (settingWords settings) (settings.flatMap Setting.tokens) := by
  induction settings with
  | nil => exact spells_nil
  | cons setting rest ih =>
    rw [List.forall_mem_cons] at sound
    exact (Setting.spells sound.1).append (ih sound.2)

/-- How a command is read, word by word. -/
theorem classifyAll_command {front back : List Setting} {subject : Subject}
    (sound : ∀ setting ∈ front ++ back, setting.Sound) (plain : Plain subject.name) :
    classifyAll (command front subject back) =
      .ok (front.flatMap Setting.tokens ++ (subject.tokens ++ back.flatMap Setting.tokens)) := by
  rw [List.forall_mem_append] at sound
  have all := (settingWords_spell sound.1).append
    ((Subject.spells plain).append (settingWords_spell sound.2)) []
  rw [List.append_nil] at all
  refine all.trans ?_
  exact congrArg Except.ok (List.append_nil _)

end Classification

section Progress

/-- What a setting does to a request. -/
def Setting.change : Setting → Request → Request
  | .characters, request => { request with characters := true }
  | .input bits, request => { request with input := some bits }
  | .indirectGoto, request => { request with indirectGoto := true }
  | .magnitudeGuards, request => { request with magnitudeGuards := true }
  | .stepLimit _ limit, request => { request with stepLimit := some (.int limit) }
  | .verbose more, request => { request with verbosity := request.verbosity + (more + 1) }

theorem change_install (setting : Setting) (subject : Subject) (request : Request) :
    setting.change (subject.install request) = subject.install (setting.change request) := by
  cases setting <;> cases subject <;> rfl

theorem chosen_concat (settings : List Setting) (setting : Setting) :
    chosen (settings ++ [setting]) = setting.change (chosen settings) := by
  cases setting <;> simp [chosen, totalVerbosity, Setting.change, Setting.input?, Setting.limit?,
    Setting.verbosity]

/-- A switch without a value is put into effect whatever follows it. -/
theorem readAll_apply {progress after : Progress} {switch : Switch} (bare : switch.takesValue = false)
    (applied : progress.apply switch = .ok after) (short : Bool) (rest : List Token) :
    progress.readAll (.option switch short none :: rest) = after.readAll rest := by
  have read : progress.readAll (.option switch short none :: rest) =
      progress.apply switch >>= fun next => next.readAll rest := by
    cases rest with
    | nil => rfl
    | cons token rest =>
      cases token with
      | plain word =>
        conv => lhs; rw [Progress.readAll]
        rw [bare]
        rfl
      | _ => rfl
  rw [read, applied]
  rfl

/-- A switch takes the plain word behind it for its value. -/
theorem readAll_applyValue {progress after : Progress} {switch : Switch} {word : String}
    (takes : switch.takesValue = true) (applied : progress.applyValue switch word = .ok after)
    (short : Bool) (rest : List Token) :
    progress.readAll (.option switch short none :: .plain word :: rest) = after.readAll rest := by
  conv => lhs; rw [Progress.readAll]
  rw [takes, applied]
  rfl

theorem expandShort_repeated (more : Nat) :
    Progress.expandShort .verbose (List.replicate more 'v') =
      .ok (List.replicate (more + 1) .verbose) := by
  induction more with
  | zero => rfl
  | succ more ih =>
    have known : Switch.ofSpelling? (String.ofList ['-', 'v']) = some .verbose := rfl
    rw [List.replicate_succ, Progress.expandShort, known]
    dsimp only
    rw [ih]
    rfl

theorem foldlM_verbose (progress : Progress) (count : Nat) :
    (List.replicate count Switch.verbose).foldlM (fun current next => current.apply next)
        progress =
      .ok (progress.update fun request =>
        { request with verbosity := request.verbosity + count }) := by
  induction count generalizing progress with
  | zero => rfl
  | succ count ih =>
    rw [List.replicate_succ, List.foldlM_cons]
    refine (ih _).trans ?_
    unfold Progress.update
    dsimp only
    rw [Nat.add_assoc, Nat.add_comm 1]

theorem applyAttached_repeated (progress : Progress) (more : Nat) :
    progress.applyAttached .verbose true (String.ofList (List.replicate (more + 1) 'v')) =
      .ok (progress.update (Setting.verbose (more + 1)).change) := by
  have letters : (String.ofList (List.replicate (more + 1) 'v') != "") = true := by
    rw [bne_iff_ne]
    intro empty
    have none := congrArg String.toList empty
    rw [String.toList_ofList] at none
    cases none
  unfold Progress.applyAttached
  rw [letters, String.toList_ofList, expandShort_repeated]
  exact foldlM_verbose progress (more + 2)

theorem readAll_setting {setting : Setting} (sound : setting.Sound) (progress : Progress)
    (rest : List Token) :
    progress.readAll (setting.tokens ++ rest) = (progress.update setting.change).readAll rest := by
  cases setting with
  | characters => exact readAll_apply rfl rfl false rest
  | indirectGoto => exact readAll_apply rfl rfl false rest
  | magnitudeGuards => exact readAll_apply rfl rfl false rest
  | input bits => exact readAll_applyValue rfl rfl false rest
  | stepLimit numeral limit =>
    apply readAll_applyValue rfl
    unfold Progress.applyValue
    dsimp only
    rw [sound.2]
    rfl
  | verbose more =>
    cases more with
    | zero => exact readAll_apply rfl rfl true rest
    | succ more =>
      have read : progress.readAll ((Setting.verbose (more + 1)).tokens ++ rest) =
          progress.applyAttached .verbose true (String.ofList (List.replicate (more + 1) 'v')) >>=
            fun next => next.readAll rest := rfl
      rw [read, applyAttached_repeated]
      rfl

/-- Settings are added to those before them, whatever else is in the request. -/
theorem readAll_settings {settings : List Setting} (sound : ∀ setting ∈ settings, setting.Sound)
    {install : Request → Request}
    (apart : ∀ (setting : Setting) request,
      setting.change (install request) = install (setting.change request))
    (done : List Setting) (placeTaken : Bool) (rest : List Token) :
    Progress.readAll ⟨install (chosen done), placeTaken, []⟩
        (settings.flatMap Setting.tokens ++ rest) =
      Progress.readAll ⟨install (chosen (done ++ settings)), placeTaken, []⟩ rest := by
  induction settings generalizing done with
  | nil => rw [List.append_nil, List.flatMap_nil, List.nil_append]
  | cons setting settings ih =>
    rw [List.forall_mem_cons] at sound
    rw [List.flatMap_cons, List.append_assoc, readAll_setting sound.1]
    unfold Progress.update
    rw [apart, ← chosen_concat, ih sound.2, List.append_assoc, List.singleton_append]

theorem settingTokens_ne_separator (settings : List Setting) (rest : List Token) :
    settings.flatMap Setting.tokens ≠ .separator :: rest := by
  cases settings with
  | nil => exact nofun
  | cons setting settings =>
    rw [List.flatMap_cons]
    cases setting with
    | verbose more => cases more <;> exact nofun
    | _ => exact nofun

/-- The subject finds its place. -/
theorem readAll_subject (subject : Subject) (settings others : List Setting) :
    ∃ placeTaken,
      Progress.readAll ⟨chosen settings, false, []⟩
          (subject.tokens ++ others.flatMap Setting.tokens) =
        Progress.readAll ⟨subject.install (chosen settings), placeTaken, []⟩
          (others.flatMap Setting.tokens) := by
  have next := settingTokens_ne_separator others
  cases subject with
  | graph name => exact ⟨false, readAll_applyValue rfl rfl false _⟩
  | emitGraph name => exact ⟨false, readAll_applyValue rfl rfl false _⟩
  | program name =>
    refine ⟨true, ?_⟩
    generalize others.flatMap Setting.tokens = rest at next
    cases rest with
    | nil => rfl
    | cons token rest =>
      cases token with
      | separator => exact absurd rfl (next rest)
      | _ => rfl

end Progress

/-- A command is read as the request that its settings spell, with its subject. -/
theorem readArguments_command {front back : List Setting} {subject : Subject}
    (sound : ∀ setting ∈ front ++ back, setting.Sound) (plain : Plain subject.name) :
    readArguments (command front subject back) = .ok (subject.install (chosen (front ++ back))) := by
  have words := classifyAll_command sound plain
  rw [List.forall_mem_append] at sound
  have bare : ∀ (setting : Setting) request,
      setting.change (id request) = id (setting.change request) := fun _ _ => rfl
  have first := readAll_settings sound.1 bare [] false
    (subject.tokens ++ back.flatMap Setting.tokens)
  obtain ⟨placeTaken, second⟩ := readAll_subject subject front back
  have third := readAll_settings sound.2 (fun setting => change_install setting subject) front
    placeTaken []
  rw [List.append_nil] at third
  have read : Progress.readAll {} (front.flatMap Setting.tokens ++
      (subject.tokens ++ back.flatMap Setting.tokens)) =
      .ok ⟨subject.install (chosen (front ++ back)), placeTaken, []⟩ :=
    first.trans (second.trans third)
  unfold readArguments
  rw [words]
  show (Progress.readAll _ _ >>= _) = _
  rw [read]
  rfl

end BitMachine.CommandLine
