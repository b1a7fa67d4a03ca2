import HttpTranscoding.CommandLine.Arguments
import HttpTranscoding.Proofs.Except

/-!
# Reading the names of allowed fields

Of all that is read from the arguments, the names of allowed fields decide nothing: they are only
gathered. So flags in front of other texts add their names to what is read from these, whatever
it is. The name that the command line cannot give is `--`, which stands for no value where it is
attached to a switch and otherwise for the end of the switches.

* `Progress.read_allowing`: reading does not depend on the names that have been read;
* `Arguments.ofTexts_flags`: flags in front of other texts;
* `Arguments.not_mem_allowed`: no arguments give the name `--`.
-/

namespace HttpTranscoding.CommandLine

/-! ## Arguments that allow more fields -/

/-- The arguments that allow the fields of the given names as well, before all others. -/
def Arguments.allowing (a : Arguments) (names : List String) : Arguments :=
  { a with allowed := names.map some ++ a.allowed }

namespace Progress

variable (p : Progress) (names : List String)

def allowing : Progress :=
  { p with arguments := p.arguments.allowing names }

@[simp] theorem endRun_allowing : (p.allowing names).endRun = p.endRun.allowing names := by
  unfold endRun
  split_ifs <;> first | rfl | contradiction

@[simp] theorem leaveOver_allowing (text : String) :
    (p.allowing names).leaveOver text = (p.leaveOver text).allowing names :=
  rfl

@[simp] theorem addWord_allowing (text : String) :
    (p.allowing names).addWord text = (p.addWord text).allowing names := by
  unfold addWord
  split_ifs <;> first | rfl | contradiction

@[simp] theorem addSeparator_allowing :
    (p.allowing names).addSeparator = p.addSeparator.allowing names := by
  unfold addSeparator
  split_ifs <;> first | rfl | contradiction

@[simp] theorem assign_allowing (s : Switch) (value : Option String) :
    (p.allowing names).assign s value = (p.assign s value).allowing names := by
  cases s with
  | allowRepeated => simp [assign, allowing, Arguments.allowing]
  | _ => rfl

theorem helpWith_allowing (text : List Char) :
    (p.allowing names).helpWith text = (p.helpWith text).map (·.allowing names) := by
  fun_induction helpWith p text with
  | case3 rest h ih =>
    rw [helpWith]
    · exact ih
    · exact h
  | _ => simp_all [helpWith, allowing, Except.map]

theorem take_allowing (s : Switch) (short : Bool) (attached : Option (List Char)) :
    (p.allowing names).take s short attached =
      (p.take s short attached).map (·.allowing names) := by
  cases attached with
  | none => cases s <;> rfl
  | some text =>
    simp only [take, assign_allowing, helpWith_allowing]
    split_ifs <;> rfl

/-- What is read does not depend on the fields that are allowed. -/
theorem read_allowing (piece : Piece) :
    (p.allowing names).read piece = (p.read piece).map (·.allowing names) := by
  have hpending : (p.allowing names).pending = p.pending := rfl
  cases hp : p.pending with
  | none =>
    cases piece <;>
      simp only [read, hpending, hp, addWord_allowing, addSeparator_allowing, endRun_allowing,
        leaveOver_allowing, take_allowing] <;> rfl
  | some waiting =>
    cases piece with
    | word value =>
      simp only [read, hpending, hp, assign_allowing]
      split_ifs <;> rfl
    | _ => simp only [read, hpending, hp, Except.map]

theorem finish_allowing : (p.allowing names).finish = p.finish.map (·.allowing names) := by
  rcases p with ⟨a, words, _ | pending, _ | leftover⟩ <;> rfl

end Progress

/-! ## Spellings -/

theorem Piece.cut_append {before value : List Char} (h : '=' ∉ before) :
    cut (before ++ '=' :: value) = (before, some value) := by
  have hbefore : ∀ c ∈ before, (decide (c ≠ '=')) = true := fun c hc =>
    decide_eq_true fun e => h (e ▸ hc)
  rw [cut, List.dropWhile_append_of_pos hbefore, List.takeWhile_append_of_pos hbefore]
  simp

/-- A spelling is at least two characters, the first of them a dash and none an equals sign, and
is that of one switch. -/
theorem Switch.of_mem_table {entry : String × Switch} (h : entry ∈ table) :
    '=' ∉ entry.1.toList ∧ ofSpelling? entry.1 = some entry.2 ∧
      ∃ second rest, entry.1.toList = '-' :: second :: rest := by
  have hall : ∀ entry ∈ table, '=' ∉ entry.1.toList ∧ ofSpelling? entry.1 = some entry.2 ∧
      entry.1.toList.head? = some '-' ∧ 2 ≤ entry.1.toList.length := by decide
  obtain ⟨hequals, hspelling, hdash, hlength⟩ := hall entry h
  refine ⟨hequals, hspelling, ?_⟩
  rcases hchars : entry.1.toList with _ | ⟨first, _ | ⟨second, rest⟩⟩
  · simp [hchars] at hlength
  · simp [hchars] at hlength
  · rw [hchars] at hdash
    obtain rfl := Option.some.inj hdash
    exact ⟨second, rest, rfl⟩

theorem Switch.ofSpelling?_of_equals_mem {text : String} (h : '=' ∈ text.toList) :
    ofSpelling? text = none := by
  have hfind : table.find? (·.1 = text) = none :=
    List.find?_eq_none.mpr fun entry hentry heq =>
      (of_mem_table hentry).1 (of_decide_eq_true heq ▸ h)
  rw [ofSpelling?, hfind]
  rfl

theorem equals_mem_attached (spelling value : String) :
    '=' ∈ (spelling ++ "=" ++ value).toList := by
  simp

/-- A spelling with a text attached to it is read as what it is. -/
theorem Piece.ofText_attached {spelling : String} {s : Switch}
    (h : (spelling, s) ∈ Switch.table) (value : String) :
    ofText (spelling ++ "=" ++ value) = .ok (.switch s (isShort spelling) (some value.toList)) := by
  obtain ⟨hequals, hspelling, second, rest, hdash⟩ := Switch.of_mem_table h
  have hchars : (spelling ++ "=" ++ value).toList = spelling.toList ++ '=' :: value.toList := by
    simp
  have hcut : cut (spelling ++ "=" ++ value).toList = (spelling.toList, some value.toList) := by
    rw [hchars, cut_append hequals]
  have hnone : Switch.ofSpelling? (spelling ++ "=" ++ value) = none :=
    Switch.ofSpelling?_of_equals_mem (equals_mem_attached ..)
  have hshort : isShort (spelling ++ "=" ++ value) = isShort spelling := by
    simp [isShort, hdash]
  have hswitch : ¬((spelling ++ "=" ++ value).toList.head? ≠ some '-' ||
      (spelling ++ "=" ++ value).toList.length = 1) := by
    simp [hdash]
  rw [ofText, if_neg hswitch, hcut, hnone, String.ofList_toList, hspelling, hshort]

theorem Piece.ofText_word {text : String} (h : text.toList.head? ≠ some '-') :
    ofText text = .ok (.word text) := by
  simp [ofText, h]

/-! ## Flags -/

/-- The flag that allows the field of the given name, as one argument. -/
def flag (name : String) : String :=
  "--allow-repeated-field" ++ "=" ++ name

/-- The ways to write the flag for a name: as one argument, or as two. -/
def flagForms (name : String) : List (List String) :=
  [[flag name], ["--allow-repeated-field", name]]

/-- The flag for the name is written so that the name can be read: it is not `--`, and does not
begin with a dash where it is an argument of its own. -/
structure WritesFlag (form : List String) (name : String) : Prop where
  mem_flagForms : form ∈ flagForms name
  ne_dashes : name ≠ "--"
  not_dash : form ≠ [flag name] → name.toList.head? ≠ some '-'

/-- The texts are read as the pieces, whatever comes after them, and all that these do is to allow
the fields of the names. -/
structure ReadAs (texts : List String) (pieces : List Piece) (names : List String) : Prop where
  ofTexts_append : ∀ rest, Piece.ofTexts (texts ++ rest) = (Piece.ofTexts rest).map (pieces ++ ·)
  foldlM_read : ∀ before, pieces.foldlM Progress.read (Progress.start.allowing before) =
    .ok (Progress.start.allowing (before ++ names))

namespace ReadAs

variable {texts texts' : List String} {pieces pieces' : List Piece} {names names' : List String}

theorem nil : ReadAs [] [] [] where
  ofTexts_append rest := by cases h : Piece.ofTexts rest <;> simp [h, Except.map]
  foldlM_read before := by simp [pure, Except.pure]

theorem append (h : ReadAs texts pieces names) (h' : ReadAs texts' pieces' names') :
    ReadAs (texts ++ texts') (pieces ++ pieces') (names ++ names') where
  ofTexts_append rest := by
    rw [List.append_assoc, h.ofTexts_append, h'.ofTexts_append]
    cases Piece.ofTexts rest <;> simp [Except.map]
  foldlM_read before := by
    rw [List.foldlM_append, h.foldlM_read, ← List.append_assoc]
    exact h'.foldlM_read _

end ReadAs

theorem flag_ne_dashes (name : String) : flag name ≠ "--" := by
  intro h
  have hequals : '=' ∈ (flag name).toList := equals_mem_attached ..
  rw [h] at hequals
  exact absurd hequals (by decide)

theorem start_allowing_assign (before : List String) (name : String) :
    (Progress.start.allowing before).assign .allowRepeated (some name) =
      Progress.start.allowing (before ++ [name]) := by
  simp [Progress.assign, Progress.allowing, Arguments.allowing, Progress.start]

theorem readAs_attached {name : String} (h : name ≠ "--") :
    ReadAs [flag name] [.switch .allowRepeated false (some name.toList)] [name] where
  ofTexts_append rest := by
    have hflag : Piece.ofText (flag name) = .ok (.switch .allowRepeated false (some name.toList)) :=
      Piece.ofText_attached (by decide) name
    rw [List.singleton_append, Piece.ofTexts, if_neg (flag_ne_dashes name), hflag]
    cases Piece.ofTexts rest <;> rfl
  foldlM_read before := by
    have hvalue : Progress.attachedValue name.toList = some name := by
      have hne : name.toList ≠ ['-', '-'] := fun e => h (String.toList_inj.mp e)
      rw [Progress.attachedValue, if_neg hne, String.ofList_toList]
    rw [← start_allowing_assign, ← hvalue]
    rfl

theorem readAs_separate {name : String} (h : name.toList.head? ≠ some '-') :
    ReadAs ["--allow-repeated-field", name] [.switch .allowRepeated false none, .word name]
      [name] where
  ofTexts_append rest := by
    have hswitch : Piece.ofText "--allow-repeated-field" =
        .ok (.switch .allowRepeated false none) := by rfl
    have hne : name ≠ "--" := by
      rintro rfl
      exact h (by decide)
    rw [List.cons_append, List.singleton_append, Piece.ofTexts, if_neg (by decide), hswitch,
      Piece.ofTexts, if_neg hne, Piece.ofText_word h]
    cases Piece.ofTexts rest <;> rfl
  foldlM_read before := by
    rw [← start_allowing_assign]
    rfl

theorem WritesFlag.exists_readAs {form : List String} {name : String} (h : WritesFlag form name) :
    ∃ pieces, ReadAs form pieces [name] := by
  by_cases hform : form = [flag name]
  · exact hform ▸ ⟨_, readAs_attached h.ne_dashes⟩
  · obtain rfl : form = ["--allow-repeated-field", name] := by
      simpa [flagForms, hform] using h.mem_flagForms
    exact ⟨_, readAs_separate (h.not_dash hform)⟩

theorem exists_readAs_of_writesFlag {written : List (List String)} {names : List String}
    (h : List.Forall₂ WritesFlag written names) :
    ∃ pieces, ReadAs written.flatten pieces names := by
  induction h with
  | nil => exact ⟨[], .nil⟩
  | cons hform _ ih =>
    obtain ⟨first, hfirst⟩ := hform.exists_readAs
    obtain ⟨rest, hrest⟩ := ih
    exact ⟨_, hfirst.append hrest⟩

/-- Flags in front of other texts only allow more fields. -/
theorem Arguments.ofTexts_flags {written : List (List String)} {names : List String}
    (h : List.Forall₂ WritesFlag written names) (rest : List String) :
    ofTexts (written.flatten ++ rest) = (ofTexts rest).map (·.allowing names) := by
  obtain ⟨flags, hflags⟩ := exists_readAs_of_writesFlag h
  unfold ofTexts
  rw [hflags.ofTexts_append]
  cases Piece.ofTexts rest with
  | error e => rfl
  | ok pieces =>
    have hrest : pieces.foldlM Progress.read (Progress.start.allowing names) =
        (pieces.foldlM Progress.read Progress.start).map (·.allowing names) :=
      foldlM_eq_map (g := fun p => p.allowing names)
        (fun p piece => Progress.read_allowing p names piece) pieces Progress.start
    have hall : (flags ++ pieces).foldlM Progress.read Progress.start =
        (pieces.foldlM Progress.read Progress.start).map (·.allowing names) := by
      rw [List.foldlM_append, ← hrest]
      exact congrArg (· >>= pieces.foldlM Progress.read) (hflags.foldlM_read [])
    calc (flags ++ pieces).foldlM Progress.read Progress.start >>= Progress.finish
        = (pieces.foldlM Progress.read Progress.start).map (·.allowing names) >>=
          Progress.finish := by rw [hall]
      _ = (pieces.foldlM Progress.read Progress.start >>= Progress.finish).map
          (·.allowing names) := by
        cases pieces.foldlM Progress.read Progress.start with
        | error e => rfl
        | ok p => exact p.finish_allowing names

/-! ## Two dashes -/

theorem Piece.ne_dashes_of_ofText {text : String} {piece : Piece} (htext : text ≠ "--")
    (h : ofText text = .ok piece) : piece ≠ .word "--" := by
  rintro rfl
  unfold ofText at h
  grind

namespace Progress

variable {p p' : Progress}

theorem arguments_endRun (p : Progress) : p.endRun.arguments = p.arguments := by
  unfold endRun
  split_ifs <;> rfl

theorem allowed_addWord (p : Progress) (text : String) :
    (p.addWord text).arguments.allowed = p.arguments.allowed := by
  unfold addWord
  split_ifs <;> rfl

theorem arguments_addSeparator (p : Progress) :
    p.addSeparator.arguments = p.arguments := by
  unfold addSeparator
  split_ifs <;> rfl

theorem not_mem_allowed_assign {value : Option String} (hp : some "--" ∉ p.arguments.allowed)
    (hvalue : value ≠ some "--") (s : Switch) :
    some "--" ∉ (p.assign s value).arguments.allowed := by
  cases s with
  | allowRepeated => simpa [assign, hp] using Ne.symm hvalue
  | _ => exact hp

theorem arguments_helpWith {text : List Char} (h : p.helpWith text = .ok p') :
    p'.arguments = p.arguments := by
  fun_induction helpWith p text with
  | case2 =>
    obtain rfl := Except.ok.inj h
    rfl
  | case3 rest hrest ih => exact ih h
  | _ => cases h

theorem attachedValue_ne_dashes (text : List Char) : attachedValue text ≠ some "--" := by
  unfold attachedValue
  split_ifs with htext
  · simp
  · intro h
    exact htext (by simpa using congrArg String.toList (Option.some.inj h))

theorem not_mem_allowed_take {s : Switch} {short : Bool} {attached : Option (List Char)}
    (hp : some "--" ∉ p.arguments.allowed) (h : p.take s short attached = .ok p') :
    some "--" ∉ p'.arguments.allowed := by
  cases attached with
  | none => cases s <;> cases h <;> exact hp
  | some text =>
    simp only [take] at h
    split_ifs at h
    · obtain rfl := Except.ok.inj h
      exact not_mem_allowed_assign hp (attachedValue_ne_dashes text) s
    · rwa [arguments_helpWith h]

/-- Only a word can give the two dashes as a name. -/
theorem not_mem_allowed_read {piece : Piece} (hpiece : piece ≠ .word "--")
    (hp : some "--" ∉ p.arguments.allowed) (h : p.read piece = .ok p') :
    some "--" ∉ p'.arguments.allowed := by
  cases hpending : p.pending with
  | some waiting =>
    cases piece with
    | word value =>
      simp only [read, hpending] at h
      split_ifs at h
      obtain rfl := Except.ok.inj h
      exact not_mem_allowed_assign hp (fun e => hpiece (congrArg Piece.word (Option.some.inj e))) _
    | _ => simp [read, hpending] at h
  | none =>
    cases piece with
    | word text =>
      simp only [read, hpending] at h
      rwa [← Except.ok.inj h, allowed_addWord]
    | separator =>
      simp only [read, hpending] at h
      rwa [← Except.ok.inj h, arguments_addSeparator]
    | switch s short attached =>
      simp only [read, hpending] at h
      exact not_mem_allowed_take (arguments_endRun p ▸ hp) h
    | unknown text =>
      simp only [read, hpending] at h
      obtain rfl := Except.ok.inj h
      exact arguments_endRun p ▸ hp

/-- Words that no switch waits for are no names of allowed fields. -/
theorem allowed_of_read_words {words : List String} (hp : p.pending = none)
    (h : (words.map Piece.word).foldlM read p = .ok p') :
    p'.arguments.allowed = p.arguments.allowed := by
  refine (foldlM_invariant (P := fun q => q.pending = none ∧
    q.arguments.allowed = p.arguments.allowed) ?_ ⟨hp, rfl⟩ h).2
  rintro q piece hpiece q' ⟨hpending, hallowed⟩ hread
  obtain ⟨text, -, rfl⟩ := List.mem_map.mp hpiece
  simp only [read, hpending] at hread
  obtain rfl := Except.ok.inj hread
  refine ⟨?_, allowed_addWord q text ▸ hallowed⟩
  unfold addWord
  split_ifs <;> exact hpending

/-- Before the first `--` no piece gives it as a name. What comes after it are only words, and no
switch waits for one of them. -/
theorem not_mem_allowed_of_foldlM {texts : List String} {pieces : List Piece}
    (hpieces : Piece.ofTexts texts = .ok pieces) (hp : some "--" ∉ p.arguments.allowed)
    (h : pieces.foldlM read p = .ok p') : some "--" ∉ p'.arguments.allowed := by
  induction texts generalizing pieces p with
  | nil =>
    obtain rfl := Except.ok.inj hpieces
    exact Except.ok.inj h ▸ hp
  | cons text rest ih =>
    rw [Piece.ofTexts] at hpieces
    split_ifs at hpieces with hdashes
    · obtain rfl := Except.ok.inj hpieces
      rw [List.foldlM_cons, bind_eq_ok_iff] at h
      obtain ⟨q, hread, hwords⟩ := h
      cases hpending : p.pending with
      | some waiting => simp [read, hpending] at hread
      | none =>
        simp only [read, hpending] at hread
        obtain rfl := Except.ok.inj hread
        have hq : p.addSeparator.pending = none := by
          unfold addSeparator
          split_ifs <;> exact hpending
        rwa [allowed_of_read_words hq hwords, arguments_addSeparator]
    · simp only [bind_eq_ok_iff] at hpieces
      obtain ⟨piece, hpiece, others, hothers, heq⟩ := hpieces
      obtain rfl := Except.ok.inj heq
      rw [List.foldlM_cons, bind_eq_ok_iff] at h
      obtain ⟨q, hread, hrest⟩ := h
      exact ih hothers (not_mem_allowed_read (Piece.ne_dashes_of_ofText hdashes hpiece) hp hread)
        hrest

end Progress

/-- No arguments give the name `--`. -/
theorem Arguments.not_mem_allowed {texts : List String} {a : Arguments}
    (h : ofTexts texts = .ok a) : some "--" ∉ a.allowed := by
  simp only [ofTexts, bind_eq_ok_iff] at h
  obtain ⟨pieces, hpieces, p, hread, hfinish⟩ := h
  cases htexts : Piece.ofTexts texts with
  | error e => simp [htexts, Except.mapError] at hpieces
  | ok given =>
    rw [htexts] at hpieces
    obtain rfl := Except.ok.inj hpieces
    have hp := Progress.not_mem_allowed_of_foldlM htexts (by simp [Progress.start]) hread
    unfold Progress.finish at hfinish
    split at hfinish
    · cases hfinish
    · exact Except.ok.inj hfinish ▸ hp
    · cases hfinish

end HttpTranscoding.CommandLine
