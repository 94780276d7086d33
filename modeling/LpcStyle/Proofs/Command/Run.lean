import Mathlib.Tactic
import LpcStyle.Command.Run

/-!
What a run over files touches. A path stops a run if it leads to no file that can be read, or one over whose text the program
breaks off. The files before the first such path are dealt with one by one, each apart from the others, and no file
behind it is. The exit code says whether all went well.
-/

namespace LpcStyle.Command

open Text Config

/-! ## Paths and files -/

section

variable {p q text : List Char} {paths : List (List Char)} {files : Files} {f : List Char → List Char}

namespace Files

/-- no two of the paths lead to the same file -/
def Apart (files : Files) (paths : List (List Char)) : Prop :=
  paths.Pairwise fun p q => files.file? p = files.file? q → files.file? p = none

instance : Decidable (files.Apart paths) := inferInstanceAs (Decidable (List.Pairwise _ _))

/-- the files with a change made to those that some of the paths lead to -/
def change (files : Files) (paths : List (List Char)) (f : List Char → List Char) : Files :=
  { files with text? := fun n => if ∃ p ∈ paths, files.file? p = some n then (files.text? n).map f else files.text? n }

@[simp] theorem file?_change (p : List Char) : (files.change paths f).file? p = files.file? p := rfl

@[simp] theorem apart_change {others : List (List Char)} : (files.change others f).Apart paths ↔ files.Apart paths := Iff.rfl

@[simp] theorem change_nil : files.change [] f = files := by simp [change]

theorem change_of_fixed (h : ∀ text, f text = text) : files.change paths f = files := by
  obtain rfl : f = id := funext h
  simp [change]

/-- a file that is led to once is changed once -/
theorem change_change (h : ∀ q ∈ paths, files.file? p = files.file? q → files.file? p = none) :
    (files.change [p] f).change paths f = files.change (p :: paths) f := by
  refine congrArg (Files.mk files.file?) (funext fun n => ?_)
  by_cases hp : files.file? p = some n
  · have hnone : ¬∃ q ∈ paths, files.file? q = some n := by
      rintro ⟨q, hq, hn⟩
      simp [h q hq (hp.trans hn.symm)] at hp
    simp [change, hp, hnone]
  · simp [change, hp]

/-- a change does not reach files that are led to by other paths -/
theorem read_change (h : files.file? p = files.file? q → files.file? p = none) :
    (files.change [p] f).read? q = files.read? q := by
  rw [read?, read?, file?_change]
  refine Option.bind_congr fun n hn => ?_
  have hp : files.file? p ≠ some n := fun hp => by simp [h (hp.trans hn.symm)] at hp
  simp [change, hp]

/-- the text of a file is replaced by what a change makes of it -/
theorem write_eq_change (hread : files.read? p = some text) : files.write p (f text) = files.change [p] f := by
  obtain ⟨m, hm, htext⟩ := Option.bind_eq_some_iff.1 hread
  refine congrArg (Files.mk files.file?) (funext fun n => ?_)
  by_cases hp : files.file? p = some n
  · obtain rfl : m = n := Option.some.inj (hm.symm.trans hp)
    simp [hp, htext]
  · simp [hp]

end Files

end

/-! ## One file -/

section

variable {action : Action} {o : Options} {path text : List Char} {e : Effect}

/-- formatting gives a layout or refuses the text; with anything else the program breaks off -/
def settles : Except Failure (List Char) → Bool
  | .ok _ | .error (.refused _) => true
  | .error _ => false

/-- the text has a layout or is refused -/
def isSettled (o : Options) (text : List Char) : Bool := settles (format o text)

/-- the text in its layout; a text that has none stays as it is -/
def restyled (o : Options) (text : List Char) : List Char := (format o text).toOption.getD text

namespace Action

/-- what becomes of the text of a file -/
def result (action : Action) (o : Options) (text : List Char) : List Char :=
  if action = .format true then restyled o text else text

/-- what is printed for a text -/
def printed (action : Action) (o : Options) (text : List Char) : List Char :=
  if action = .format false then (LpcStyle.format o text).toOption.getD [] else []

/-- the text has a layout, and is in it if that is what is asked -/
def Accepts (action : Action) (o : Options) (text : List Char) : Prop :=
  ∃ out, LpcStyle.format o text = .ok out ∧ (action = .check → out = text)

theorem apply_eq_none (h : isSettled o text = false) : action.apply o path text = none := by
  rw [isSettled] at h
  rw [apply]
  cases hformat : LpcStyle.format o text with
  | ok out =>
    rw [hformat] at h
    cases h
  | error failure =>
    rw [hformat] at h
    cases failure with
    | refused error => cases h
    | inverted start stop => rfl
    | exhausted => rfl
    | stalled => rfl

/-- **What an action does about one file** -/
theorem exists_apply (action : Action) (path : List Char) (h : isSettled o text = true) :
    ∃ e, action.apply o path text = some e ∧ e.stdout = action.printed o text ∧
      e.write.getD text = action.result o text ∧ (e.ok = true ↔ action.Accepts o text) := by
  rw [isSettled] at h
  rw [apply, printed, result, Accepts, restyled]
  cases hformat : LpcStyle.format o text with
  | error failure =>
    rw [hformat] at h
    cases failure with
    | refused error => exact ⟨_, rfl, by simp [Except.toOption], by simp [Except.toOption], by simp⟩
    | inverted start stop => cases h
    | exhausted => cases h
    | stalled => cases h
  | ok out =>
    refine ⟨_, rfl, ?_⟩
    cases action with
    | format write =>
      cases write with
      | false => simp [Except.toOption]
      | true =>
        refine ⟨by simp, ?_, by simp⟩
        by_cases hsame : out = text <;> simp [hsame, Except.toOption]
    | check => by_cases hsame : out = text <;> simp [hsame]

end Action

end

/-! ## Runs -/

section

variable {action : Action} {o : Options} {r s : Outcome} {files : Files} {path text : List Char} {paths : List (List Char)}

/-- the path leads to no file that can be read, or to one over whose text the program breaks off -/
def Files.stops (files : Files) (o : Options) (path : List Char) : Bool := (files.read? path).all (!isSettled o ·)

/-- the paths before the first one that stops a run -/
def Files.before (files : Files) (o : Options) (paths : List (List Char)) : List (List Char) :=
  paths.takeWhile (!files.stops o ·)

/-- what is printed for a path -/
def Action.output (action : Action) (o : Options) (files : Files) (path : List Char) : List Char :=
  ((files.read? path).map (action.printed o)).getD []

/-- the path leads to a file that the action accepts -/
def Action.Passes (action : Action) (o : Options) (files : Files) (path : List Char) : Prop :=
  ∃ text, files.read? path = some text ∧ action.Accepts o text

theorem not_passes_of_stops (h : files.stops o path = true) : ¬action.Passes o files path := by
  rintro ⟨text, hread, out, hformat, -⟩
  simp [Files.stops, hread, isSettled, hformat, settles] at h

theorem Files.before_congr {files' : Files} (h : ∀ q ∈ paths, files'.read? q = files.read? q) :
    files'.before o paths = files.before o paths := by
  induction paths with
  | nil => rfl
  | cons path paths ih =>
    have hpath : files'.stops o path = files.stops o path := by rw [stops, stops, h path (by simp)]
    have hrest := ih fun q hq => h q (List.mem_cons_of_mem path hq)
    rw [before, before] at hrest ⊢
    rw [List.takeWhile_cons, List.takeWhile_cons, hpath, hrest]

/-- what a run leads to from an outcome on: the files before the first path that stops it are dealt with -/
structure Outcome.Covers (action : Action) (o : Options) (r : Outcome) (paths : List (List Char)) (s : Outcome) : Prop where
  files : s.files = r.files.change (r.files.before o paths) (action.result o)
  stdout : s.stdout = r.stdout ++ (r.files.before o paths).flatMap (action.output o r.files)
  exit : s.exit = exitOk ↔ r.exit = exitOk ∧ ∀ path ∈ paths, action.Passes o r.files path

theorem runPaths_cons : runPaths action o r (path :: paths) =
    match r.files.read? path with
    | none => r.abort (LoadError.unreadable path).message
    | some text =>
      match action.apply o path text with
      | none => r.breakOff
      | some effect => runPaths action o (r.add path effect) paths := by rfl

/-- a text over which the program breaks off ends a run at once -/
theorem runPaths_of_broken (hread : r.files.read? path = some text) (hbroken : isSettled o text = false) :
    runPaths action o r (path :: paths) = r.breakOff := by
  rw [runPaths_cons, hread]
  simp only [Action.apply_eq_none hbroken]

/-- a path that stops a run leaves everything behind it as it is -/
theorem covers_of_stops (hstops : r.files.stops o path = true) :
    r.Covers action o (path :: paths) (runPaths action o r (path :: paths)) := by
  have hbefore : r.files.before o (path :: paths) = [] := by simp [Files.before, hstops]
  have hend {s : Outcome} (hfiles : s.files = r.files) (hstdout : s.stdout = r.stdout) (hexit : s.exit ≠ exitOk) :
      r.Covers action o (path :: paths) s := by
    constructor
    · rw [hbefore, Files.change_nil, hfiles]
    · rw [hbefore, List.flatMap_nil, List.append_nil, hstdout]
    · exact iff_of_false hexit fun h => not_passes_of_stops hstops (h.2 path List.mem_cons_self)
  cases hread : r.files.read? path with
  | none =>
    rw [runPaths_cons, hread]
    exact hend rfl rfl (by simp [Outcome.abort, exitFailed, exitOk])
  | some text =>
    rw [runPaths_of_broken hread (by simpa [Files.stops, hread] using hstops)]
    exact hend rfl rfl (by simp [Outcome.breakOff, exitBroken, exitOk])

/-- what is done about one file changes no other -/
theorem files_add {e : Effect} (hread : r.files.read? path = some text)
    (hwrite : e.write.getD text = action.result o text) :
    (r.add path e).files = r.files.change [path] (action.result o) := by
  have hnew := Files.write_eq_change (f := action.result o) hread
  rw [← hwrite] at hnew
  rw [← hnew, Outcome.add]
  cases e.write with
  | some new => rfl
  | none =>
    have hsame : r.files.write path text = r.files.change [path] id := Files.write_eq_change (f := id) hread
    rw [Files.change_of_fixed (f := id) fun _ => rfl] at hsame
    exact hsame.symm

/-- **One file**, and what the run leads to from there on -/
theorem covers_add {e : Effect} (hpaths : r.files.Apart (path :: paths)) (hread : r.files.read? path = some text)
    (hsettled : isSettled o text = true)
    (hstdout : e.stdout = action.printed o text) (hwrite : e.write.getD text = action.result o text)
    (hok : e.ok = true ↔ action.Accepts o text) (h : (r.add path e).Covers action o paths s) :
    r.Covers action o (path :: paths) s := by
  have hadd := files_add hread hwrite
  have hothers : ∀ q ∈ paths, r.files.file? path = r.files.file? q → r.files.file? path = none :=
    (List.pairwise_cons.1 hpaths).1
  have hsame : ∀ q ∈ paths, (r.add path e).files.read? q = r.files.read? q := by
    intro q hq
    rw [hadd, Files.read_change (hothers q hq)]
  have hrest := Files.before_congr (o := o) hsame
  have hbefore : r.files.before o (path :: paths) = path :: r.files.before o paths := by
    simp [Files.before, Files.stops, hread, hsettled]
  have hsub : r.files.before o paths ⊆ paths := List.takeWhile_subset _
  constructor
  · rw [h.files, hrest, hadd, hbefore]
    exact Files.change_change fun q hq => hothers q (hsub hq)
  · rw [h.stdout, hrest, hbefore, List.flatMap_cons, ← List.append_assoc]
    congr 1
    · rw [Outcome.add, hstdout, Action.output, hread]
      rfl
    · refine List.flatMap_congr fun q hq => ?_
      rw [Action.output, Action.output, hsame q (hsub hq)]
  · have hpass : action.Passes o r.files path ↔ e.ok = true := by
      rw [hok, Action.Passes, hread]
      simp
    have hpasses : ∀ q ∈ paths, action.Passes o (r.add path e).files q ↔ action.Passes o r.files q := by
      intro q hq
      rw [Action.Passes, Action.Passes, hsame q hq]
    have hexit : (r.add path e).exit = exitOk ↔ r.exit = exitOk ∧ e.ok = true := by
      rw [Outcome.add]
      cases e.ok <;> simp [exitOk, exitFailed]
    rw [h.exit, hexit, List.forall_mem_cons, hpass, forall₂_congr hpasses, and_assoc]

/-- **A whole run** deals with the files before the first path that stops it. -/
theorem covers_runPaths (hpaths : r.files.Apart paths) : r.Covers action o paths (runPaths action o r paths) := by
  induction paths generalizing r with
  | nil =>
    rw [show runPaths action o r [] = r from rfl]
    constructor <;> simp [Files.before]
  | cons path paths ih =>
    cases hstops : r.files.stops o path with
    | true => exact covers_of_stops hstops
    | false =>
      obtain ⟨text, hread, hsettled⟩ : ∃ text, r.files.read? path = some text ∧ isSettled o text = true := by
        cases hread : r.files.read? path with
        | none => simp [Files.stops, hread] at hstops
        | some text => exact ⟨text, rfl, by simpa [Files.stops, hread] using hstops⟩
      obtain ⟨e, happly, hstdout, hwrite, hok⟩ := action.exists_apply path hsettled
      have hrun : runPaths action o r (path :: paths) = runPaths action o (r.add path e) paths := by
        rw [runPaths_cons, hread]
        simp only [happly]
      rw [hrun]
      refine covers_add hpaths hread hsettled hstdout hwrite hok (ih ?_)
      rw [files_add hread hwrite, Files.apart_change]
      exact List.Pairwise.of_cons hpaths

end

/-- **What a command touches.** Let no two paths lead to the same file. If the settings cannot be told, nothing but that is
reported, whatever the paths are. Otherwise let `k` be the place of the first path that cannot be read
or over whose text the program breaks off, and the number of paths if there is none. `format --write` leaves the files
at places below `k` in their layout, or as they were where a text is refused, and all other files as they were.
Without `--write`, `format` changes no file and prints the layouts of the files at places below `k`, in their order.
`check` changes no file. The exit code says that all is well just if `k` is the number of paths, every file has a
layout, and every file is in it for `check`. -/
theorem run_request (request : Request) (files : Files) (hpaths : files.Apart request.paths) :
    (∀ e, request.overrides.load files.isFile files.read? = .error e →
      request.run files = { exit := exitFailed, stderr := line ("Error: ".toList ++ e.message), files }) ∧
    ∀ o, request.overrides.load files.isFile files.read? = .ok o →
      let k := request.paths.findIdx (files.stops o)
      (request.action = .format true →
        (request.run files).files = files.change (request.paths.take k) (restyled o)) ∧
      (request.action = .format false → (request.run files).files = files ∧
        (request.run files).stdout = (request.paths.take k).flatMap fun path =>
          ((files.read? path).map fun text => (format o text).toOption.getD []).getD []) ∧
      (request.action = .check → (request.run files).files = files) ∧
      ((request.run files).exit = exitOk ↔ k = request.paths.length ∧
        ∀ path ∈ request.paths, ∃ text out, files.read? path = some text ∧ format o text = .ok out ∧
          (request.action = .check → out = text)) := by
  constructor
  · intro e he
    rw [Request.run, he]
    rfl
  · intro o ho
    have hrun : request.run files = runPaths request.action o { files } request.paths := by rw [Request.run, ho]
    have hcovers : Outcome.Covers request.action o { files } request.paths (request.run files) :=
      hrun ▸ covers_runPaths hpaths
    have hbefore : files.before o request.paths = request.paths.take (request.paths.findIdx (files.stops o)) := by
      rw [Files.before, List.takeWhile_eq_take_findIdx_not]
      simp only [Bool.not_not]
    have hchange := hcovers.files
    have hprint := hcovers.stdout
    have hexit := hcovers.exit
    dsimp only at hchange hprint hexit ⊢
    rw [hbefore] at hchange hprint
    refine ⟨fun haction => ?_, fun haction => ⟨?_, ?_⟩, fun haction => ?_, ?_⟩
    · rw [hchange]
      congr 1
      funext text
      rw [Action.result, if_pos haction]
    · rw [hchange]
      exact Files.change_of_fixed fun text => by simp [Action.result, haction]
    · rw [hprint, List.nil_append]
      refine List.flatMap_congr fun path _ => ?_
      have hprinted : request.action.printed o = fun text => (format o text).toOption.getD [] := by
        funext text
        rw [Action.printed, if_pos haction]
      rw [Action.output, hprinted]
    · rw [hchange]
      exact Files.change_of_fixed fun text => by simp [Action.result, haction]
    · rw [hexit]
      have hpasses : (∀ path ∈ request.paths, request.action.Passes o files path) ↔
          ∀ path ∈ request.paths, ∃ text out,
            files.read? path = some text ∧ format o text = .ok out ∧ (request.action = .check → out = text) := by
        simp only [Action.Passes, Action.Accepts, exists_and_left]
      rw [← hpasses]
      refine and_congr_left fun hall => iff_of_true rfl (List.findIdx_eq_length.2 fun path hpath => ?_)
      by_contra hstops
      exact not_passes_of_stops (Bool.eq_true_of_not_eq_false hstops) (hall path hpath)

/-- the files of a list of paths and texts, each of which only its own path leads to -/
def Files.ofList (entries : List (List Char × List Char)) : Files where
  file? path := entries.findIdx? (·.1 == path)
  text? n := entries[n]?.map (·.2)

/-- a file that is not in its layout, one that is refused, and another one -/
def someFiles : Files :=
  .ofList [("/tmp/a.c".toList, "x=1".toList), ("../b.c".toList, "x=;".toList), ("c.c".toList, "y=2".toList)]

/-- a missing file stands before the last one -/
def someRequest : Request := ⟨.format true, ["/tmp/a.c".toList, "../b.c".toList, "d.c".toList, "c.c".toList], {}⟩

/-- the file behind the missing one stays as it is -/
theorem run_request_missing : someFiles.Apart someRequest.paths ∧
    someRequest.paths.map (someRequest.run someFiles).files.read? =
      [some "x = 1;\n".toList, some "x=;".toList, none, some "y=2".toList] ∧
    (someRequest.run someFiles).exit ≠ exitOk := by
  have hpaths : someFiles.Apart someRequest.paths := by decide +kernel
  have hload : someRequest.overrides.load someFiles.isFile someFiles.read? = .ok {} := by decide +kernel
  have hplace : someRequest.paths.findIdx (someFiles.stops {}) = 2 := by decide +kernel
  obtain ⟨hwrite, -, -, hexit⟩ := (run_request someRequest someFiles hpaths).2 {} hload
  rw [hplace] at hwrite hexit
  refine ⟨hpaths, ?_, fun hok => ?_⟩
  · rw [hwrite rfl]
    decide +kernel
  · exact absurd (hexit.1 hok).1 (by decide)

/-- a text whose tree has a node that would end before it starts, and one in which a call of the lexer takes nothing -/
def brokenTexts : List (List Char) := ["switch (x) /*a*/ /*b*/ \x7b case 1: y; \x7d".toList, "#define\u00a0x".toList]

/-- two files -/
def twoFiles (first second : List Char) : Files := .ofList [("a.c".toList, first), ("b.c".toList, second)]

/-- **A text over which the program breaks off stops the run.** The first file is not refused, and yet the second one does not
get its layout. -/
theorem run_write_broken : (∀ first ∈ brokenTexts, run ["format".toList, "--write".toList, "a.c".toList, "b.c".toList]
      (twoFiles first "x=1".toList) =
        { exit := exitBroken, stderr := brokenMessage, files := twoFiles first "x=1".toList }) ∧
    (∀ first ∈ brokenTexts, ∀ e, format {} first ≠ .error (.refused e)) ∧
    format {} "x=1".toList = .ok "x = 1;\n".toList := by
  have hbroken : ∀ first ∈ brokenTexts, isSettled {} first = false := by decide +kernel
  refine ⟨fun first hfirst => ?_, fun first hfirst e he => ?_, by decide +kernel⟩
  · have hrequest : Request.parse? ["format".toList, "--write".toList, "a.c".toList, "b.c".toList] =
        some ⟨.format true, ["a.c".toList, "b.c".toList], {}⟩ := by decide +kernel
    have hload : Overrides.load {} (twoFiles first "x=1".toList).isFile (twoFiles first "x=1".toList).read? = .ok {} := rfl
    rw [run, hrequest]
    simp only [Request.run, hload]
    exact runPaths_of_broken rfl (hbroken first hfirst)
  · have hsettled := hbroken first hfirst
    rw [isSettled, he] at hsettled
    cases hsettled

end LpcStyle.Command
