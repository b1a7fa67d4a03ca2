import HttpTranscoding.Validator
import Mathlib.Data.List.Basic

/-!
# How templates are filled

A template is read from left to right as ordinary characters, percent signs that stand for
themselves and places for arguments (`Template.Piece`), perhaps with a lone percent sign at its
end (`Template.Reading`). The places and the number of arguments decide what becomes of it, and
what the arguments hold is put in as it is.

* `Template.fill_written_append`: what the pieces at the beginning of a template come to;
* `Template.Reading.fill_eq`: the message of a template, or the problem that is met first;
* `Reporter.error_exact`: what is recorded, and that nothing is if there is a problem.
-/

namespace HttpTranscoding

namespace Template

variable {template rest : List Char} {args : List (List Char)}

/-! ## Directives one by one -/

/-- Text without percent signs stands for itself. -/
theorem fill_append {plain : List Char} (hplain : '%' ∉ plain) (rest : List Char)
    (args : List (List Char)) : fill (plain ++ rest) args = (fill rest args).map (plain ++ ·) := by
  induction plain with
  | nil => cases h : fill rest args <;> simp [h, Except.map]
  | cons c plain ih =>
    rw [List.mem_cons, not_or] at hplain
    have hfirst : fill (c :: (plain ++ rest)) args = (fill (plain ++ rest) args).map (c :: ·) := by
      rw [fill] <;> grind
    rw [List.cons_append, hfirst, ih hplain.2]
    cases fill rest args <;> rfl

theorem fill_percent (rest : List Char) (args : List (List Char)) :
    fill ('%' :: '%' :: rest) args = (fill rest args).map ('%' :: ·) := by
  rw [fill]

theorem fill_argument (rest arg : List Char) (args : List (List Char)) :
    fill ('%' :: 's' :: rest) (arg :: args) = (fill rest args).map (arg ++ ·) := by
  rw [fill]

theorem fill_missing (rest : List Char) : fill ('%' :: 's' :: rest) [] = .error .tooFewArguments := by
  rw [fill]

theorem fill_open (args : List (List Char)) : fill ['%'] args = .error .openDirective := by
  rw [fill]

theorem fill_parts (parts : List (List Char × List Char)) (h : ∀ part ∈ parts, '%' ∉ part.2) :
    fill (parts.flatMap fun part => '%' :: 's' :: part.2) (parts.map (·.1)) =
      .ok (parts.flatMap fun part => part.1 ++ part.2) := by
  induction parts with
  | nil => rfl
  | cons part parts ih =>
    rw [List.forall_mem_cons] at h
    rw [List.flatMap_cons, List.flatMap_cons, List.map_cons, List.cons_append, List.cons_append,
      fill_argument, fill_append h.1, ih h.2, List.append_assoc]
    rfl

/-- The message of a template that has text without percent signs before and after its places. -/
theorem instantiate_parts (before : String) (parts : List (Argument × String))
    (hne : parts ≠ []) (hbefore : '%' ∉ before.toList)
    (hparts : ∀ part ∈ parts, '%' ∉ part.2.toList) :
    instantiate (before ++ String.join (parts.map fun part => "%s" ++ part.2)) (parts.map (·.1)) =
      .ok (before ++ String.join (parts.map fun part => part.1.shown ++ part.2)) := by
  have hfill := fill_parts (parts.map fun part => (part.1.shown.toList, part.2.toList))
    (List.forall_mem_map.mpr hparts)
  have htemplate : (before ++ String.join (parts.map fun part => "%s" ++ part.2)).toList =
      before.toList ++ (parts.map fun part => (part.1.shown.toList, part.2.toList)).flatMap
        fun part => '%' :: 's' :: part.2 := by
    simp [List.flatMap_map]
  have hargs : (parts.map (·.1)).map (·.shown.toList) =
      (parts.map fun part => (part.1.shown.toList, part.2.toList)).map (·.1) := by
    simp [Function.comp_def]
  rw [instantiate, if_neg (by simpa using hne), htemplate, hargs, fill_append hbefore, hfill]
  simp [Except.map, ← String.toList_inj, List.flatMap_map]

/-! ## Pieces -/

/-- A part of a template that is read as one. -/
inductive Piece
  /-- A character that stands for itself. -/
  | plain (c : Char) (ordinary : c ≠ '%')
  /-- Two percent signs, which stand for one. -/
  | percent
  /-- The place of an argument. -/
  | place

namespace Piece

/-- How the piece is written in a template. -/
def written : Piece → List Char
  | plain c _ => [c]
  | percent => ['%', '%']
  | place => ['%', 's']

def isPlace : Piece → Bool
  | plain _ _ | percent => false
  | place => true

/-- What the piece comes to if it stands after `earlier` places. -/
def shown (args : List (List Char)) (earlier : Nat) : Piece → List Char
  | plain c _ => [c]
  | percent => ['%']
  | place => args.getD earlier []

end Piece

/-- The template that consists of the pieces. -/
def written (pieces : List Piece) : List Char :=
  pieces.flatMap Piece.written

/-- How many places there are among the pieces. -/
def places (pieces : List Piece) : Nat :=
  pieces.countP (·.isPlace)

/-- The message that the pieces come to: at the first place stands the first argument, at the
second the second, and so on. -/
def filled (pieces : List Piece) (args : List (List Char)) : List Char :=
  pieces.zipIdx.flatMap fun (piece, i) => piece.shown args (places (pieces.take i))

theorem written_append_cons (before : List Piece) (piece : Piece) (after : List Piece) :
    written (before ++ piece :: after) = written before ++ (piece.written ++ written after) := by
  simp [written]

theorem filled_cons (piece : Piece) (pieces : List Piece) (args : List (List Char)) :
    filled (piece :: pieces) args =
      piece.shown args 0 ++ filled pieces (if piece.isPlace then args.tail else args) := by
  have hshown : ∀ (p : Piece) (n : Nat), p.shown args (places [piece] + n) =
      p.shown (if piece.isPlace then args.tail else args) n := fun p n => by
    cases p with
    | plain c ordinary => rfl
    | percent => rfl
    | place => cases piece <;> cases args <;> simp [Piece.shown, places, Piece.isPlace, Nat.add_comm 1]
  have hplaces : ∀ i, places ((piece :: pieces).take (i + 1)) =
      places [piece] + places (pieces.take i) := fun i => by
    rw [List.take_succ_cons, ← List.singleton_append, places, List.countP_append]
    rfl
  unfold filled
  rw [List.zipIdx_cons', List.flatMap_cons, List.flatMap_map]
  simp only [List.take_zero, Prod.map_fst, Prod.map_snd, id, hplaces, hshown]
  rfl

/-- As long as there are arguments for the places, pieces are filled one after the other, and
what follows them is filled with the arguments that are left. -/
theorem fill_written_append {pieces : List Piece} (h : places pieces ≤ args.length)
    (rest : List Char) : fill (written pieces ++ rest) args =
      (fill rest (args.drop (places pieces))).map (filled pieces args ++ ·) := by
  induction pieces generalizing args with
  | nil =>
    change fill rest args = (fill rest args).map id
    cases fill rest args <;> rfl
  | cons piece pieces ih =>
    have hmap (first message : List Char) (tail : Except FillError (List Char)) :
        (tail.map (message ++ ·)).map (first ++ ·) = tail.map (first ++ message ++ ·) := by
      cases tail <;> simp [Except.map]
    have hsplit : written (piece :: pieces) ++ rest =
        piece.written ++ (written pieces ++ rest) := by simp [written]
    rw [hsplit, filled_cons]
    cases piece with
    | plain c ordinary =>
      have hc : '%' ∉ [c] := by simpa using ordinary.symm
      rw [Piece.written, fill_append hc, ih h, hmap]
      rfl
    | percent =>
      have hfirst := fill_percent (written pieces ++ rest) args
      rw [ih h] at hfirst
      exact hfirst.trans (hmap ['%'] _ _)
    | place =>
      cases args with
      | nil => simp [places, Piece.isPlace] at h
      | cons arg args =>
        have hplaces : places (.place :: pieces) = places pieces + 1 := by
          simp [places, Piece.isPlace]
        rw [hplaces, List.length_cons, Nat.add_le_add_iff_right] at h
        have hfirst := fill_argument (written pieces ++ rest) arg args
        rw [ih h, hmap] at hfirst
        rw [hplaces, List.drop_succ_cons]
        exact hfirst

/-! ## Readings -/

/-- What a template is read as: pieces, and perhaps a lone percent sign at the end. -/
structure Reading (template : String) where
  pieces : List Piece
  lone : Bool
  eq : template.toList = written pieces ++ if lone then ['%'] else []

/-- Where every percent sign has a percent sign, an `s` or nothing after it, a template can be
read. -/
theorem exists_written {template : List Char}
    (h : ∀ before c after, template = before ++ '%' :: c :: after → c = 's' ∨ c = '%') :
    ∃ (pieces : List Piece) (lone : Bool),
      template = written pieces ++ if lone then ['%'] else [] := by
  fun_induction demand template with
  | case1 => exact ⟨[], false, rfl⟩
  | case2 => exact ⟨[], true, rfl⟩
  | case3 rest ih =>
    obtain ⟨pieces, lone, rfl⟩ := ih fun before c after hrest =>
      h ('%' :: '%' :: before) c after (by rw [hrest]; rfl)
    exact ⟨.percent :: pieces, lone, rfl⟩
  | case4 rest ih =>
    obtain ⟨pieces, lone, rfl⟩ := ih fun before c after hrest =>
      h ('%' :: 's' :: before) c after (by rw [hrest]; rfl)
    exact ⟨.place :: pieces, lone, rfl⟩
  | case5 tail hne hpercent hplace =>
    cases tail with
    | nil => exact absurd rfl hne
    | cons c after =>
      obtain rfl | rfl := h [] c after rfl
      · exact absurd rfl (hplace after)
      · exact absurd rfl (hpercent after)
  | case6 c rest _ _ _ hc ih =>
    obtain ⟨pieces, lone, rfl⟩ := ih fun before d after hrest =>
      h (c :: before) d after (by rw [hrest]; rfl)
    exact ⟨.plain c hc :: pieces, lone, rfl⟩

/-- If there are more places than arguments, then there is a first one that is left empty. -/
theorem exists_empty_place {pieces : List Piece} {given : Nat} (h : given < places pieces) :
    ∃ before after, pieces = before ++ .place :: after ∧ places before = given := by
  induction pieces generalizing given with
  | nil => simp [places] at h
  | cons piece pieces ih =>
    have hplaces : places (piece :: pieces) = places [piece] + places pieces := by
      rw [← List.singleton_append, places, List.countP_append]
      rfl
    by_cases hfirst : given < places [piece]
    · cases piece with
      | plain c ordinary => simp [places, Piece.isPlace] at hfirst
      | percent => simp [places, Piece.isPlace] at hfirst
      | place =>
        obtain rfl : given = 0 := Nat.lt_one_iff.mp hfirst
        exact ⟨[], pieces, rfl, rfl⟩
    · have hrest : given - places [piece] < places pieces := by omega
      obtain ⟨before, after, rfl, hbefore⟩ := ih hrest
      refine ⟨piece :: before, after, rfl, ?_⟩
      rw [← List.singleton_append, places, List.countP_append, ← places, ← places, hbefore]
      omega

/-- At the first place that is left empty a template fails, whatever follows. -/
theorem fill_of_empty_place {pieces : List Piece} (h : places pieces = args.length)
    (rest : List Char) :
    fill (written pieces ++ '%' :: 's' :: rest) args = .error .tooFewArguments := by
  rw [fill_written_append (Nat.le_of_eq h), h, List.drop_length, fill_missing]
  rfl

namespace Reading

variable {template : String} (t : Reading template)

/-- The problem that is met first with the given number of arguments: a place that is left empty,
or else at the end a lone percent sign, or else arguments that are left over there. -/
def problem? (given : Nat) : Option FillError :=
  if given < places t.pieces then some .tooFewArguments
  else if t.lone then some .openDirective
  else if places t.pieces < given then some .tooManyArguments
  else none

section Problems

variable {given : Nat}

theorem problem?_eq_none_iff : t.problem? given = none ↔ ¬t.lone ∧ places t.pieces = given := by
  unfold problem?
  split_ifs <;> grind

theorem problem?_eq_tooFewArguments_iff :
    t.problem? given = some .tooFewArguments ↔ given < places t.pieces := by
  unfold problem?
  split_ifs <;> grind

theorem problem?_eq_openDirective_iff :
    t.problem? given = some .openDirective ↔ t.lone ∧ places t.pieces ≤ given := by
  unfold problem?
  split_ifs <;> grind

theorem problem?_eq_tooManyArguments_iff :
    t.problem? given = some .tooManyArguments ↔ ¬t.lone ∧ places t.pieces < given := by
  unfold problem?
  split_ifs <;> grind

end Problems

/-- A template comes to its message if there is no problem. -/
theorem fill_eq (args : List (List Char)) : fill template.toList args =
    match t.problem? args.length with
    | some e => .error e
    | none => .ok (filled t.pieces args) := by
  rw [t.eq]
  cases hproblem : t.problem? args.length with
  | none =>
    obtain ⟨hlone, hplaces⟩ := t.problem?_eq_none_iff.mp hproblem
    rw [if_neg hlone, fill_written_append (Nat.le_of_eq hplaces), hplaces, List.drop_length]
    exact congrArg Except.ok (List.append_nil _)
  | some e =>
    cases e with
    | tooFewArguments =>
      obtain ⟨before, after, hpieces, hbefore⟩ :=
        exists_empty_place (t.problem?_eq_tooFewArguments_iff.mp hproblem)
      rw [hpieces, written_append_cons, List.append_assoc, List.append_assoc]
      exact fill_of_empty_place hbefore _
    | openDirective =>
      obtain ⟨hlone, hfits⟩ := t.problem?_eq_openDirective_iff.mp hproblem
      rw [if_pos hlone, fill_written_append hfits, fill_open]
      rfl
    | tooManyArguments =>
      obtain ⟨hlone, hleft⟩ := t.problem?_eq_tooManyArguments_iff.mp hproblem
      obtain ⟨arg, rest, hrest⟩ := List.exists_cons_of_ne_nil
        (mt List.drop_eq_nil_iff.mp (Nat.not_le_of_lt hleft))
      rw [if_neg hlone, fill_written_append (Nat.le_of_lt hleft), hrest]
      rfl
    | unknownDirective letter =>
      unfold problem? at hproblem
      split_ifs at hproblem <;> simp at hproblem

end Reading

/-- A template that can be read has no directives but those that are known. -/
theorem Reading.nonempty_of_directives {template : String}
    (h : ∀ before c after, template.toList = before ++ '%' :: c :: after → c = 's' ∨ c = '%') :
    Nonempty (Reading template) := by
  obtain ⟨pieces, lone, heq⟩ := exists_written h
  exact ⟨⟨pieces, lone, heq⟩⟩

end Template

/-! ## Messages -/

/-- The message of a violation whose template has text without percent signs before and after its
places. -/
theorem Violation.message_of_parts (v : Violation) (method : Method) (before : String)
    (parts : List (Template.Argument × String))
    (htemplate : v.template = before ++ String.join (parts.map fun part => "%s" ++ part.2))
    (harguments : v.arguments method = parts.map (·.1)) (hne : parts ≠ [])
    (hbefore : '%' ∉ before.toList) (hparts : ∀ part ∈ parts, '%' ∉ part.2.toList) :
    v.message method = before ++ String.join (parts.map fun part => part.1.shown ++ part.2) := by
  have hfilled := v.instantiate_template method
  rw [htemplate, harguments, Template.instantiate_parts before parts hne hbefore hparts] at hfilled
  exact (Except.ok.inj hfilled).symm

/-! ## Recording -/

namespace Reporter

open Template

/-- Records an error in the reporter that is at hand. -/
def record (location : Location) (kind : DiagnosticKind) (template : String)
    (args : List Argument) : Reporting FillError Diagnostic := do
  let (d, r) ← (← get).error location kind template args
  set r
  return d

variable (location : Location) (kind : DiagnosticKind) (template : String)

theorem record_run (args : List Argument) (r : Reporter) :
    (record location kind template args).run r =
      match instantiate template args with
      | .error e => (.error e, r)
      | .ok message => (.ok ⟨kind, .error, location, message⟩,
          r.append [⟨kind, .error, location, message⟩]) := by
  unfold record Reporter.error
  cases instantiate template args <;> rfl

theorem record_run_of_reading (t : Reading template) {args : List Argument} (hargs : args ≠ [])
    (r : Reporter) : (record location kind template args).run r =
      match t.problem? args.length with
      | some e => (.error e, r)
      | none =>
        (.ok ⟨kind, .error, location, String.ofList (filled t.pieces (args.map (·.shown.toList)))⟩,
          r.append [⟨kind, .error, location,
            String.ofList (filled t.pieces (args.map (·.shown.toList)))⟩]) := by
  rw [record_run, instantiate, if_neg (by simpa using hargs), t.fill_eq, List.length_map]
  cases t.problem? args.length <;> rfl

theorem record_run_of_empty_place {pieces : List Piece} {rest : List Char} {args : List Argument}
    (hargs : args ≠ []) (hplaces : places pieces = args.length)
    (heq : template.toList = written pieces ++ '%' :: 's' :: rest) (r : Reporter) :
    (record location kind template args).run r = (.error .tooFewArguments, r) := by
  have hlength : places pieces = (args.map (·.shown.toList)).length := by
    rw [hplaces, List.length_map]
  have hfill := fill_of_empty_place hlength rest
  rw [record_run, instantiate, if_neg (by simpa using hargs), heq, hfill]
  rfl

/-- Without arguments a template is recorded as it is. With arguments, of a template that can be
read, it is recorded if and only if there is no lone percent sign at its end and there are as
many places as arguments, and then every place shows the argument of its number, whatever that
holds. Otherwise the reporter is left as it was, and the problem that is met first is the error: a
place that is left empty, which keeps what follows it from being read at all, or else a lone
percent sign at the end, or else arguments that are left over there. -/
theorem error_exact (r : Reporter) (location : Location) (kind : DiagnosticKind)
    (template : String) :
    (record location kind template []).run r =
      (.ok ⟨kind, .error, location, template⟩,
        r.append [⟨kind, .error, location, template⟩]) ∧
    ((∀ before c after, template.toList = before ++ '%' :: c :: after → c = 's' ∨ c = '%') →
      Nonempty (Reading template)) ∧
    (∀ (t : Reading template) (args : List Argument), args ≠ [] →
      ((∃ d r', (record location kind template args).run r = (.ok d, r')) ↔
        ¬t.lone ∧ places t.pieces = args.length) ∧
      (¬t.lone → places t.pieces = args.length → ∃ d : Diagnostic,
        d = ⟨kind, .error, location,
          String.ofList (filled t.pieces (args.map (·.shown.toList)))⟩ ∧
        (record location kind template args).run r = (.ok d, r.append [d])) ∧
      ((record location kind template args).run r = (.error .tooFewArguments, r) ↔
        args.length < places t.pieces) ∧
      ((record location kind template args).run r = (.error .openDirective, r) ↔
        t.lone ∧ places t.pieces ≤ args.length) ∧
      ((record location kind template args).run r = (.error .tooManyArguments, r) ↔
        ¬t.lone ∧ places t.pieces < args.length)) ∧
    ∀ pieces rest (args : List Argument), args ≠ [] → places pieces = args.length →
      template.toList = written pieces ++ '%' :: 's' :: rest →
        (record location kind template args).run r = (.error .tooFewArguments, r) := by
  refine ⟨?_, Reading.nonempty_of_directives, fun t args hargs => ?_, ?_⟩
  · rw [record_run]
    rfl
  · have hfails : ∀ e, (record location kind template args).run r = (.error e, r) ↔
        t.problem? args.length = some e := fun e => by
      rw [record_run_of_reading location kind template t hargs]
      cases t.problem? args.length with
      | none => exact ⟨fun h => absurd (Prod.mk.inj h).1 (by simp), fun h => by simp at h⟩
      | some e' =>
        exact ⟨fun h => congrArg some (Except.error.inj (Prod.mk.inj h).1),
          fun h => by rw [Option.some.inj h]⟩
    refine ⟨?_, fun hlone hplaces => ?_, ?_, ?_, ?_⟩
    · rw [← t.problem?_eq_none_iff, record_run_of_reading location kind template t hargs]
      cases t.problem? args.length with
      | none => exact ⟨fun _ => rfl, fun _ => ⟨_, _, rfl⟩⟩
      | some e => exact ⟨fun ⟨d, r', h⟩ => absurd (Prod.mk.inj h).1 (by simp), fun h => by simp at h⟩
    · refine ⟨_, rfl, ?_⟩
      rw [record_run_of_reading location kind template t hargs,
        t.problem?_eq_none_iff.mpr ⟨hlone, hplaces⟩]
    · rw [hfails, t.problem?_eq_tooFewArguments_iff]
    · rw [hfails, t.problem?_eq_openDirective_iff]
    · rw [hfails, t.problem?_eq_tooManyArguments_iff]
  · intro pieces rest args hargs hplaces heq
    exact record_run_of_empty_place location kind template hargs hplaces heq r

/-- A share in percent, of which the template has a name. -/
def shareReading : Reading "%s: 100%%" where
  pieces := [.place, .plain ':' (by decide), .plain ' ' (by decide), .plain '1' (by decide),
    .plain '0' (by decide), .plain '0' (by decide), .percent]
  lone := false
  eq := by decide +kernel

def cutReading : Reading "%s%" where
  pieces := [.place]
  lone := true
  eq := by decide +kernel

def shareDiagnostic : Diagnostic :=
  ⟨.responseNotJsonRenderable, .error, .unknown, "%s: 100%"⟩

/-- A name is shown as it is, be it a directive. A template that is cut off after a percent sign
records nothing, and neither does one that runs out of names before it comes to what cannot be
read. -/
theorem record_share :
    (record .unknown .responseNotJsonRenderable "%s: 100%%" [.text "%s"]).run Reporter.empty =
      (.ok shareDiagnostic, ⟨[shareDiagnostic]⟩) ∧
    (∀ before c after, "%s%".toList = before ++ '%' :: c :: after → c = 's' ∨ c = '%') ∧
    Nonempty (Reading "%s%") ∧
    (record .unknown .responseNotJsonRenderable "%s%" [.text "all"]).run Reporter.empty =
      (.error .openDirective, Reporter.empty) ∧
    (record .unknown .responseNotJsonRenderable "%s%s%d" [.text "all"]).run Reporter.empty =
      (.error .tooFewArguments, Reporter.empty) := by
  have hdirectives : ∀ before c after, "%s%".toList = before ++ '%' :: c :: after →
      c = 's' ∨ c = '%' := by
    rintro (_ | ⟨_, _ | ⟨_, before⟩⟩) c after h
    · have hfirst : 's' = c ∧ ['%'] = after := by simpa using h
      exact .inl hfirst.1.symm
    · simp at h
    · have hlength := congrArg List.length h
      simp at hlength
      omega
  obtain ⟨-, -, hshare, -⟩ := error_exact Reporter.empty .unknown .responseNotJsonRenderable
    "%s: 100%%"
  obtain ⟨-, hreading, hcut, -⟩ := error_exact Reporter.empty .unknown .responseNotJsonRenderable
    "%s%"
  obtain ⟨-, -, -, hempty⟩ := error_exact Reporter.empty .unknown .responseNotJsonRenderable
    "%s%s%d"
  obtain ⟨-, hrecorded, -⟩ := hshare shareReading [.text "%s"] (by simp)
  obtain ⟨d, hd, hrun⟩ := hrecorded (by decide) (by decide)
  obtain rfl : d = shareDiagnostic := hd.trans (by decide +kernel)
  obtain ⟨-, -, -, hopen, -⟩ := hcut cutReading [.text "all"] (by simp)
  exact ⟨hrun, hdirectives, hreading hdirectives, hopen.mpr (by decide),
    hempty [.place] ['%', 'd'] [.text "all"] (by simp) (by decide) (by decide +kernel)⟩

end Reporter

end HttpTranscoding
