import Kyacopycat.Options.Argv
import Kyacopycat.Persistence

/-!
The argument vectors on which the option loop stays inside `argv`.

`Leads` is the grammar of the options that can be carried out, without the loop: it says how
many arguments every option has and which files are there when it opens its own.

* `Leads.reaches`, `Leads.one`, `Leads.two`: the loop follows the grammar.
* `argv_safe_iff`: the loop leaves `argv` exactly on a file option without its file.
-/

namespace Kyacopycat

open Stdio

variable {D Path : Type} [DecidableEq Path]

/-! ### The grammar -/

/-- The arguments are complete options, which can all be carried out, and then what `stop`
says. -/
inductive Leads (sys : System D Path) (stop : List CString → Prop) :
    Files Path → List CString → Prop where
  | stop {files : Files Path} {args : List CString} (now : stop args) : Leads sys stop files args
  | flag {files : Files Path} {arg : CString} {rest : List CString}
      (dash : arg.head? = some '-'.toUInt8) (number : ¬ NumberOption arg)
      (file : ¬ FileOption arg) (leads : Leads sys stop files rest) :
      Leads sys stop files (arg :: rest)
  | attached {files : Files Path} {arg : CString} {rest : List CString}
      (dash : arg.head? = some '-'.toUInt8) (number : NumberOption arg)
      (unusable : rest.head?.any (usableNumber sys (arg.getD 1 0)) = false)
      (usable : usableNumber sys (arg.getD 1 0) (arg.drop 2) = true)
      (leads : Leads sys stop files rest) : Leads sys stop files (arg :: rest)
  | separate {files : Files Path} {arg value : CString} {rest : List CString}
      (dash : arg.head? = some '-'.toUInt8) (number : NumberOption arg)
      (usable : usableNumber sys (arg.getD 1 0) value = true)
      (leads : Leads sys stop files rest) : Leads sys stop files (arg :: value :: rest)
  | file {files files' : Files Path} {arg name : CString} {rest : List CString}
      (dash : arg.head? = some '-'.toUInt8) (file : FileOption arg)
      (opens : openOption sys (arg.getD 1 0) files name = some files')
      (leads : Leads sys stop files' rest) : Leads sys stop files (arg :: name :: rest)

/-- All that is left is an option that takes a file. -/
def Dangling (args : List CString) : Prop :=
  ∃ arg, args = [arg] ∧ arg.head? = some '-'.toUInt8 ∧ FileOption arg

/-- An option that takes a file takes no number. -/
theorem FileOption.not_number {arg : CString} (h : FileOption arg) : ¬ NumberOption arg := by
  have hdisjoint : (['p', 'i', 'o', 'c', 'n', 'b'].map Char.toUInt8).all
      (· ∉ ['s', 'd', 'x'].map Char.toUInt8) = true := by decide
  exact of_decide_eq_true (List.all_eq_true.mp hdisjoint _ h)

/-! ### The loop follows the grammar -/

/-- A turn that takes one argument is one of the grammar. -/
theorem Leads.one {sys : System D Path} {stop : List CString → Prop} {arg : CString}
    {rest : List CString} {o o' : OptionState D Path} (dash : arg.head? = some '-'.toUInt8)
    (turn : optionTurn sys arg rest.head? o = .one o') (leads : Leads sys stop o'.files rest) :
    Leads sys stop o.files (arg :: rest) := by
  obtain ⟨hfiles, ⟨hnumber, hunusable, husable⟩ | ⟨hnumber, hfile⟩⟩ := optionTurn_one turn
  · exact .attached dash hnumber hunusable husable (hfiles ▸ leads)
  · exact .flag dash hnumber hfile (hfiles ▸ leads)

/-- A turn that takes two arguments is one of the grammar. -/
theorem Leads.two {sys : System D Path} {stop : List CString → Prop} {arg value : CString}
    {rest : List CString} {o o' : OptionState D Path} (dash : arg.head? = some '-'.toUInt8)
    (turn : optionTurn sys arg (some value) o = .two o')
    (leads : Leads sys stop o'.files rest) : Leads sys stop o.files (arg :: value :: rest) := by
  obtain ⟨value', hvalue, htakes⟩ := optionTurn_two turn
  obtain rfl := Option.some.inj hvalue
  obtain ⟨hnumber, husable, hfiles⟩ | ⟨hfile, hopens⟩ := htakes
  · exact .separate dash hnumber husable (hfiles ▸ leads)
  · exact .file dash hfile hopens leads

/-- A fault comes from a dangling option. -/
theorem leads_dangling {sys : System D Path} {args : List CString} {o : OptionState D Path}
    {f : Fault} (h : parseOptions sys args o = .fault f) : Leads sys Dangling o.files args := by
  fun_induction parseOptions sys args o with
  | case1 o => cases h
  | case2 arg rest o dash f' turn =>
    obtain ⟨-, hfile, hnext⟩ := optionTurn_fault turn
    exact .stop ⟨arg, by rw [List.head?_eq_none_iff.mp hnext], dash, hfile⟩
  | case3 arg rest o dash message o₁ turn => cases h
  | case4 arg rest o dash o₁ turn ih => exact .one dash turn (ih h)
  | case5 arg o dash o₁ turn => cases h
  | case6 arg o dash o₁ value rest turn ih => exact .two dash turn (ih h)
  | case7 arg rest o dash => cases h

/-- The loop without a ROM comes from options only. -/
theorem leads_nil {sys : System D Path} {args : List CString} {o o' : OptionState D Path}
    (h : parseOptions sys args o = .done o' none) : Leads sys (· = []) o.files args := by
  fun_induction parseOptions sys args o with
  | case1 o => exact .stop rfl
  | case2 arg rest o dash f' turn => cases h
  | case3 arg rest o dash message o₁ turn => cases h
  | case4 arg rest o dash o₁ turn ih => exact .one dash turn (ih h)
  | case5 arg o dash o₁ turn =>
    obtain ⟨value, hvalue, -⟩ := optionTurn_two turn
    cases hvalue
  | case6 arg o dash o₁ value rest turn ih => exact .two dash turn (ih h)
  | case7 arg rest o dash => cases h

/-- A turn that takes one argument, by its outline. -/
theorem parseOptions_outline_one {sys : System D Path} {arg : CString} {rest : List CString}
    {o : OptionState D Path} {files : Files Path} (dash : arg.head? = some '-'.toUInt8)
    (outline : optionOutline sys arg rest.head? o.files = .ok (some (false, files))) :
    ∃ o', o'.files = files ∧ parseOptions sys (arg :: rest) o = parseOptions sys rest o' := by
  obtain ⟨o', hturn, hfiles⟩ := Turn.outline_eq_one ((optionTurn_outline sys arg _ o).trans outline)
  exact ⟨o', hfiles, parseOptions_one rest dash hturn⟩

/-- A turn that takes two arguments, by its outline. -/
theorem parseOptions_outline_two {sys : System D Path} {arg value : CString}
    {rest : List CString} {o : OptionState D Path} {files : Files Path}
    (dash : arg.head? = some '-'.toUInt8)
    (outline : optionOutline sys arg (some value) o.files = .ok (some (true, files))) :
    ∃ o', o'.files = files ∧
      parseOptions sys (arg :: value :: rest) o = parseOptions sys rest o' := by
  obtain ⟨o', hturn, hfiles⟩ := Turn.outline_eq_two ((optionTurn_outline sys arg _ o).trans outline)
  exact ⟨o', hfiles, parseOptions_two rest dash hturn⟩

/-- On the options of the grammar the loop comes to what follows them. -/
theorem Leads.reaches {sys : System D Path} {stop : List CString → Prop}
    {files : Files Path} {args : List CString} (h : Leads sys stop files args)
    (o : OptionState D Path) (hfiles : o.files = files) :
    ∃ args' o', stop args' ∧ parseOptions sys args o = parseOptions sys args' o' := by
  induction h generalizing o with
  | stop now => exact ⟨_, o, now, rfl⟩
  | @flag files arg rest dash number file leads ih =>
    subst hfiles
    have houtline : optionOutline sys arg rest.head? o.files = .ok (some (false, o.files)) := by
      rw [optionOutline, if_neg number, if_neg file]
    obtain ⟨o₁, hfiles, hturn⟩ := parseOptions_outline_one dash houtline
    obtain ⟨args', o', hstop, hparse⟩ := ih o₁ hfiles
    exact ⟨args', o', hstop, hturn.trans hparse⟩
  | @attached files arg rest dash number unusable usable leads ih =>
    subst hfiles
    have houtline : optionOutline sys arg rest.head? o.files = .ok (some (false, o.files)) := by
      rw [optionOutline, if_pos number, unusable, if_neg Bool.false_ne_true, if_pos usable]
    obtain ⟨o₁, hfiles, hturn⟩ := parseOptions_outline_one dash houtline
    obtain ⟨args', o', hstop, hparse⟩ := ih o₁ hfiles
    exact ⟨args', o', hstop, hturn.trans hparse⟩
  | @separate files arg value rest dash number usable leads ih =>
    subst hfiles
    have houtline : optionOutline sys arg (some value) o.files = .ok (some (true, o.files)) := by
      rw [optionOutline, if_pos number, Option.any_some, if_pos usable]
    obtain ⟨o₁, hfiles, hturn⟩ := parseOptions_outline_two dash houtline
    obtain ⟨args', o', hstop, hparse⟩ := ih o₁ hfiles
    exact ⟨args', o', hstop, hturn.trans hparse⟩
  | @file files files' arg name rest dash file opens leads ih =>
    subst hfiles
    have houtline : optionOutline sys arg (some name) o.files = .ok (some (true, files')) := by
      rw [optionOutline, if_neg file.not_number, if_pos file, fileOutline, opens]
      rfl
    obtain ⟨o₁, hfiles, hturn⟩ := parseOptions_outline_two dash houtline
    obtain ⟨args', o', hstop, hparse⟩ := ih o₁ hfiles
    exact ⟨args', o', hstop, hturn.trans hparse⟩

/-! ### The loop of `main` -/

/-- The loop of `main` on the arguments behind the program's name. -/
theorem optionLoop_parsed (sys : System D Path) (prog : CString) (args : List CString)
    (o : OptionState D Path) :
    parseOptions sys args o = (optionLoop sys (prog :: args) 1 o).parsed (prog :: args) :=
  parseOptions_eq sys (prog :: args) 1 o (by simp)

/-- The loop has a fault exactly on a dangling option. -/
theorem optionLoop_fault_iff (sys : System D Path) (files : Files Path) (prog : CString)
    (args : List CString) :
    (∃ f, optionLoop sys (prog :: args) 1 (.initial sys files) = .fault f) ↔
      Leads sys Dangling files args := by
  have hparsed := optionLoop_parsed sys prog args (.initial sys files)
  constructor
  · rintro ⟨f, hf⟩
    rw [hf] at hparsed
    exact leads_dangling hparsed
  · intro leads
    obtain ⟨args', o', ⟨arg, rfl, dash, hfile⟩, hreach⟩ := leads.reaches (.initial sys files) rfl
    have houtline := optionTurn_outline sys arg none o'
    rw [optionOutline, if_neg hfile.not_number, if_pos hfile] at houtline
    have hfault : parseOptions sys [arg] o' = .fault .pastArgv := by
      rw [parseOptions, if_pos dash, List.head?_nil]
      cases h : optionTurn sys arg none o' with
      | fault f => rw [(optionTurn_fault h).1]
      | error message o₁ => rw [h] at houtline; cases houtline
      | one o₁ => rw [h] at houtline; cases houtline
      | two o₁ => rw [h] at houtline; cases houtline
    rw [hreach, hfault] at hparsed
    cases hloop : optionLoop sys (prog :: args) 1 (.initial sys files) with
    | fault f => exact ⟨f, rfl⟩
    | error message o => rw [hloop] at hparsed; cases hparsed
    | done k o => rw [hloop] at hparsed; cases hparsed

/-- The loop comes to the terminating `NULL` exactly on options only. -/
theorem optionLoop_noRom_iff (sys : System D Path) (files : Files Path) (prog : CString)
    (args : List CString) :
    (∃ k o, optionLoop sys (prog :: args) 1 (.initial sys files) = .done k o ∧
        (prog :: args)[k]? = none) ↔ Leads sys (· = []) files args := by
  have hparsed := optionLoop_parsed sys prog args (.initial sys files)
  constructor
  · rintro ⟨k, o, hdone, hnone⟩
    rw [hdone, LoopEnd.parsed, hnone] at hparsed
    exact leads_nil hparsed
  · intro leads
    obtain ⟨args', o', rfl, hreach⟩ := leads.reaches (.initial sys files) rfl
    rw [hreach] at hparsed
    cases hloop : optionLoop sys (prog :: args) 1 (.initial sys files) with
    | fault f => rw [hloop] at hparsed; cases hparsed
    | error message o => rw [hloop] at hparsed; cases hparsed
    | done k o =>
      rw [hloop] at hparsed
      exact ⟨k, o, rfl, (Parsed.done.inj hparsed).2.symm⟩

/-- The option loop always ends, and opens or converts no `NULL`. It looks one entry behind
the terminating `NULL` exactly when the arguments are complete options and then a file option
without its file. The file opened behind the loop is `NULL` exactly when the arguments are
complete options only. -/
theorem argv_safe_iff (sys : System D Path) (files : Files Path) (prog : CString)
    (args : List CString) :
    (∀ f, optionLoop sys (prog :: args) 1 (.initial sys files) = .fault f →
      f = .past ((prog :: args).length + 1)) ∧
    ((∀ f, optionLoop sys (prog :: args) 1 (.initial sys files) ≠ .fault f) ↔
      ¬ Leads sys Dangling files args) ∧
    ((∃ k o, optionLoop sys (prog :: args) 1 (.initial sys files) = .done k o ∧
        (prog :: args)[k]? = none) ↔ Leads sys (· = []) files args) := by
  refine ⟨fun f hf => optionLoop_fault_eq (by simp) hf, ?_,
    optionLoop_noRom_iff sys files prog args⟩
  rw [← optionLoop_fault_iff sys files prog args, not_exists]

/-- With `-p` as the only argument the loop reads the entry behind the `NULL`. -/
theorem not_argv_safe_dangling :
    ¬ ∀ (sys : System Unit CString) (files : Files CString) (prog : CString)
      (args : List CString), args ≠ [] →
        ∀ f, optionLoop sys (prog :: args) 1 (.initial sys files) ≠ .fault f := by
  intro safe
  have hdangling : Dangling [['-', 'p'].map Char.toUInt8] := ⟨_, rfl, rfl, by decide⟩
  obtain ⟨f, hf⟩ := (optionLoop_fault_iff .permissive (fun _ => none) romFile _).mpr
    (.stop hdangling)
  exact safe .permissive (fun _ => none) romFile _ (List.cons_ne_nil _ _) f hf

end Kyacopycat
