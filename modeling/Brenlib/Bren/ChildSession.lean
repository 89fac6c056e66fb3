import Brenlib.Bren.ChildCapture
import Brenlib.Bren.ChildExec

/-!
# What a `Child` is for

A program is to be started with the settings that the calls on a `Child` have made.  A value
that has been added goes before that of the profile, whenever it has been added, and the
profile is read once, when a command is run for the first time.

* `Settings`: what a program is to be started with.
* `keeps_session`: a `Child` keeps the settings, whatever calls are made.
* `execve_gets`: what the program is started with.
* `getenv_reads`: what the program finds in its environment.
-/

namespace Brenlib
namespace Bren
namespace Child

open Run (Slot)

/-- A call that is made on a `Child`, with the answers of the system. -/
inductive Call where
  | addEnv (name value : Bytes)
  | capture (capout caperr : Bool)
  | command (executable : Bytes) (arguments : List Bytes) (stat : FileStatus)
  | run (profenv : Option Bytes) (answers : Answers)

/-- The object behind a call, whether the call returns or throws. -/
def after (child : Child) : Call → Child
  | .addEnv name value => stateOf ((addEnv name value).run child)
  | .capture capout caperr => stateOf ((capture capout caperr).run child)
  | .command executable arguments stat => stateOf ((command executable arguments stat).run child)
  | .run profenv answers => stateOf ((run profenv answers).run child)

/-- What a profile says about a variable, for an object without variables of its own. -/
def profileValue : Option Bytes → Bytes → Option Bytes
  | none, _ => none
  | some content, name => (stateOf ((readLines (getlines content)).run {})).env_.lookup name

/-- What a program is to be started with: the command, the variables that have been added,
and what has been found as the profile. -/
structure Settings where
  executable : Bytes := []
  arguments : List Bytes := []
  captures : Bool × Bool := (false, false)
  added : Bytes → Option Bytes := fun _ => none
  profile : Option (Option Bytes) := none

namespace Settings

/-- The profile is looked for once. -/
def find (s : Settings) (profenv : Option Bytes) : Settings :=
  { s with profile := some (s.profile.getD profenv) }

/-- The settings behind a call. -/
def after (s : Settings) : Call → Settings
  | .addEnv name value => { s with added := Function.update s.added name (some value) }
  | .capture capout caperr => { s with captures := (capout, caperr) }
  | .command executable arguments stat =>
      if executable ≠ [] ∧ stat = .regular then
        { s with executable := executable, arguments := arguments }
      else s
  | .run profenv _ => if s.executable = [] then s else s.find profenv

/-- The value of a variable: the one that has been added, or that of the profile. -/
def value (s : Settings) (name : Bytes) : Option Bytes :=
  (s.added name).or (profileValue (s.profile.getD none) name)

end Settings

/-- A `Child` whose members are those of the settings. -/
structure Keeps (child : Child) (s : Settings) : Prop where
  cmd : child.cmd_ = s.executable
  args : child.args_ = s.arguments
  captures : (child.capStdout_, child.capStderr_) = s.captures
  tried : child.triedEnv_ = s.profile.isSome
  env : ∀ name, child.env_.lookup name = s.value name

section Sessions

variable {child child' : Child} {s : Settings} {profenv : Option Bytes}

theorem keeps_new :
    Keeps {} {} where
  cmd := rfl
  args := rfl
  captures := rfl
  tried := rfl
  env := fun _ => rfl

theorem profileValue_some
    {content : Bytes} {entries : List (Σ _ : Bytes, Bytes)} {thrown : Option StdException}
    (h : ProfileEntries (getlines content) entries thrown)
    (name : Bytes) :
    profileValue (some content) name = entries.dlookup name := by
  rw [profileValue, h.run, stateOf_ending]
  exact (lookup_insertAll ∅ entries name).trans (Option.none_or ..)

theorem readEnv_tried
    (htried : child.triedEnv_ = true)
    (profenv : Option Bytes) :
    (readEnv_ profenv).run child = .ok () child := by
  unfold readEnv_
  rw [run_bind_ok (EStateM.run_get child), if_pos htried]
  rfl

theorem readEnv_missing
    (hfirst : child.triedEnv_ = false) :
    (readEnv_ none).run child = .ok () { child with triedEnv_ := true } := by
  rw [readEnv_, run_bind_ok (EStateM.run_get child), hfirst, if_neg Bool.false_ne_true]
  rfl

/-- The first profile is read, with an exception or without one. -/
theorem Keeps.readEnv
    (h : Keeps child s)
    (profenv : Option Bytes) :
    ∃ env thrown,
      (readEnv_ profenv).run child = ending thrown { child with env_ := env, triedEnv_ := true } ∧
      Keeps { child with env_ := env, triedEnv_ := true } (s.find profenv) := by
  cases hprofile : s.profile with
  | some profile =>
      have htried : child.triedEnv_ = true := by
        rw [h.tried, hprofile]
        rfl
      have hchild : { child with env_ := child.env_, triedEnv_ := true } = child := by
        rw [← htried]
      have hfind : s.find profenv = s := by
        rw [Settings.find, hprofile, Option.getD_some, ← hprofile]
      refine ⟨child.env_, none, ?_, ?_⟩
      · rw [readEnv_tried htried, hchild]
        rfl
      · rw [hchild, hfind]
        exact h
  | none =>
      have hfirst : child.triedEnv_ = false := by
        rw [h.tried, hprofile]
        rfl
      have hadded (name : Bytes) : child.env_.lookup name = s.added name := by
        rw [h.env, Settings.value, hprofile]
        exact Option.or_none
      cases profenv with
      | none =>
          refine ⟨child.env_, none, ?_, h.cmd, h.args, h.captures, rfl, fun name => ?_⟩
          · exact readEnv_missing hfirst
          · rw [hadded, Settings.value, Settings.find, hprofile]
            exact Option.or_none.symm
      | some content =>
          obtain ⟨entries, thrown, hentries⟩ := exists_profileEntries (getlines content)
          refine ⟨insertAll child.env_ entries, thrown, ?_, h.cmd, h.args, h.captures, rfl,
            fun name => ?_⟩
          · rw [readEnv_run hfirst, hentries.run]
          · change (insertAll child.env_ entries).lookup name = _
            rw [lookup_insertAll, hadded, Settings.value, Settings.find, hprofile,
              ← profileValue_some hentries]
            rfl

theorem Keeps.readEnv_ok
    (h : Keeps child s)
    (hread : (readEnv_ profenv).run child = .ok () child') :
    Keeps child' (s.find profenv) := by
  obtain ⟨env, thrown, hread', hkeeps⟩ := h.readEnv profenv
  cases thrown with
  | none => rwa [← (EStateM.Result.ok.inj (hread'.symm.trans hread)).2]
  | some e => cases hread'.symm.trans hread

theorem Keeps.output
    (h : Keeps child s)
    (output : Bytes) :
    Keeps { child with output := output } s :=
  ⟨h.cmd, h.args, h.captures, h.tried, h.env⟩

theorem Keeps.run
    (h : Keeps child s)
    (profenv : Option Bytes) (answers : Answers) :
    Keeps (child.after (.run profenv answers)) (s.after (.run profenv answers)) := by
  change Keeps (stateOf ((Child.run profenv answers).run child)) (if _ then _ else _)
  by_cases hcmd : child.cmd_ = []
  · rw [if_pos (h.cmd ▸ hcmd), Child.run, run_bind_ok (EStateM.run_get child),
      run_bind_error (fcet_run_throws (not_not_intro hcmd) _ _ child)]
    exact h
  · rw [if_neg (h.cmd ▸ hcmd), Child.run, run_bind_ok (EStateM.run_get child),
      run_bind_ok (fcet_run hcmd _ _ child)]
    obtain ⟨env, thrown, hrun, hkeeps⟩ := h.readEnv profenv
    generalize ({ child with env_ := env, triedEnv_ := true } : Child) = child' at hrun hkeeps
    cases thrown with
    | some e =>
        rw [run_bind_error hrun]
        exact hkeeps
    | none =>
        rw [run_bind_ok hrun, run_bind_ok (EStateM.run_get child')]
        by_cases hcaptures : (child'.capStdout_ || child'.capStderr_) = true
        · rw [if_pos hcaptures]
          by_cases hpipe : answers.pipe = none
          · rw [run_bind_ok (fcet_run hpipe _ _ child')]
            have hwait := stateOf_waitForChild answers
              { child' with output := captured answers.reads }
            refine Eq.subst (motive := (Keeps · _)) hwait.symm ?_
            exact hkeeps.output _
          · rw [run_bind_error (fcet_run_throws hpipe _ _ child')]
            exact hkeeps
        · rw [if_neg hcaptures, stateOf_waitForChild]
          exact hkeeps

theorem command_run
    {executable : Bytes}
    (hempty : executable ≠ [])
    (arguments : List Bytes) (child : Child) :
    (command executable arguments .regular).run child =
      .ok () { child with cmd_ := executable, args_ := arguments } := by
  have hcheck : FileStatus.regular.check = .ok .regular := rfl
  rw [command, run_bind_ok (fcet_run hempty _ _ child), hcheck,
    run_bind_ok (run_ofExcept _ child), run_bind_ok (fcet_run (by decide) _ _ child),
    run_bind_ok (fcet_run rfl _ _ child)]
  rfl

theorem Keeps.after
    (h : Keeps child s)
    (call : Call) :
    Keeps (child.after call) (s.after call) := by
  cases call with
  | addEnv name value =>
      refine ⟨h.cmd, h.args, h.captures, h.tried, fun name' => ?_⟩
      change (child.env_.insert name value).lookup name' =
        (Function.update s.added name (some value) name').or
          (profileValue (s.profile.getD none) name')
      by_cases hname : name' = name
      · rw [hname, AList.lookup_insert, Function.update_self]
        rfl
      · rw [AList.lookup_insert_ne hname, Function.update_of_ne hname]
        exact h.env name'
  | capture capout caperr => exact ⟨h.cmd, h.args, rfl, h.tried, h.env⟩
  | command executable arguments stat =>
      change Keeps (stateOf ((command executable arguments stat).run child)) (if _ then _ else _)
      by_cases hempty : executable ≠ []
      · cases stat with
        | regular =>
            rw [command_run hempty, if_pos ⟨hempty, rfl⟩]
            exact ⟨rfl, rfl, h.captures, h.tried, h.env⟩
        | notFound =>
            have hcheck : FileStatus.notFound.check = .ok .notFound := rfl
            rw [command, run_bind_ok (fcet_run hempty _ _ child), hcheck,
              run_bind_ok (run_ofExcept _ child),
              run_bind_error (fcet_run_throws (by decide) _ _ child),
              if_neg fun hboth => by cases hboth.2]
            exact h
        | failed what =>
            rw [command, run_bind_ok (fcet_run hempty _ _ child), FileStatus.check,
              if_neg fun hboth => by cases hboth.2]
            exact h
        | other =>
            have hcheck : FileStatus.other.check = .ok .other := rfl
            rw [command, run_bind_ok (fcet_run hempty _ _ child), hcheck,
              run_bind_ok (run_ofExcept _ child), run_bind_ok (fcet_run (by decide) _ _ child),
              run_bind_error (fcet_run_throws (by decide) _ _ child),
              if_neg fun hboth => by cases hboth.2]
            exact h
      · rw [command, run_bind_error (fcet_run_throws hempty _ _ child),
          if_neg fun hboth => hempty hboth.1]
        exact h
  | run profenv answers => exact h.run profenv answers

/-- The object behind calls on a new one. -/
def session (calls : List Call) : Child :=
  calls.foldl Child.after {}

/-- The settings that calls have made. -/
def settings (calls : List Call) : Settings :=
  calls.foldl Settings.after {}

/-- A `Child` keeps the settings, whatever calls are made and whichever of them throw. -/
theorem keeps_session
    (calls : List Call) :
    Keeps (session calls) (settings calls) := by
  induction calls using List.reverseRecOn with
  | nil => exact keeps_new
  | append_singleton calls call ih =>
      rw [session, settings, List.foldl_append, List.foldl_append]
      exact ih.after call

/-- `addEnv` tells whether the variable has a value already. -/
theorem addEnv_returns
    (h : Keeps child s)
    (name value : Bytes) :
    (addEnv name value).run child =
      .ok (s.value name).isSome { child with env_ := child.env_.insert name value } := by
  have hmem : decide (name ∈ child.env_) = (s.value name).isSome := by
    rw [← h.env, Bool.eq_iff_iff, decide_eq_true_iff, AList.lookup_isSome]
  rw [← hmem]
  rfl

end Sessions

section Started

variable {calls : List Call} {profenv : Option Bytes} {answers : ChildAnswers}
variable {order : List (Σ _ : Bytes, Bytes)} {outcome : Outcome} {child' : Child}

/-- **What a program is started with.**  Whatever calls have been made on a new `Child`, a
child process calls `execve` with the executable of the last successful `command` as the
path and as the zeroth argument, with its arguments behind it, and with one text for each
variable that has a value, all of them C strings, each array closed by a null pointer. -/
theorem execve_gets
    (hrun : (runInChild profenv answers order).run (session calls) = .ok outcome child')
    (horder : order.Perm child'.env_.entries) :
    outcome.call.path = .string (cString (settings calls).executable) ∧
    outcome.call.argv =
      ((settings calls).executable :: (settings calls).arguments).map
        (fun a => .string (cString a)) ++ [.null] ∧
    outcome.call.env = order.map (fun pr => .string (cString (envline pr))) ++ [.null] ∧
    order.NodupKeys ∧
    ∀ name value, ⟨name, value⟩ ∈ order ↔
      ((settings calls).find profenv).value name = some value := by
  obtain ⟨hread, hcall⟩ := runInChild_ok hrun
  have hkeeps := (keeps_session calls).readEnv_ok hread
  rw [hcall, argsArray_eq, envArray_eq, hkeeps.cmd, hkeeps.args]
  refine ⟨rfl, rfl, rfl, (List.perm_nodupKeys horder).mpr child'.env_.nodupKeys,
    fun name value => ?_⟩
  rw [horder.mem_iff, ← hkeeps.env]
  exact AList.mem_lookup_iff.symm

/-- A shell with two variables, of which the profile has the one and another one. -/
def shellCalls : List Call :=
  [.command (literal "/bin/sh") [literal "-c", literal "env"] .regular,
    .addEnv (literal "A") (literal "2")]

/-- The profile of the shell. -/
def shellProfile : Profile where
  lines := [.assignment (literal "A") (literal "1"), .assignment (literal "B") (literal "3")]
  wellFormed := by decide
  distinct := show (List.keys _).Nodup by decide

/-- The variables of the shell. -/
def shellOrder : List (Σ _ : Bytes, Bytes) :=
  [⟨literal "A", literal "2"⟩, ⟨literal "B", literal "3"⟩]

theorem session_shell :
    session shellCalls =
      { cmd_ := literal "/bin/sh"
        args_ := [literal "-c", literal "env"]
        env_ := AList.insert (literal "A") (literal "2") ∅ } := by
  simp only [session, shellCalls, List.foldl_cons, List.foldl_nil, Child.after]
  rw [command_run (by decide)]
  rfl

theorem shell_runs :
    ∃ outcome child',
      (runInChild (some shellProfile.text) ⟨none, none, none, none⟩ shellOrder).run
          (session shellCalls) = .ok outcome child' ∧
        shellOrder.Perm child'.env_.entries := by
  rw [session_shell]
  have hread (child : Child) (hfirst : child.triedEnv_ = false) :=
    (readEnv_run hfirst shellProfile.text).trans
      ((getlines_text shellProfile.wellFormed).symm ▸ readLines_text shellProfile.wellFormed _)
  refine ⟨_, _, runInChild_run ?_ (hread _ rfl) rfl rfl rfl, ?_⟩
  · decide
  · exact (List.reverse_perm shellOrder).symm

theorem execve_gets_example :
    ∃ outcome child',
      (runInChild (some shellProfile.text) ⟨none, none, none, none⟩ shellOrder).run
          (session shellCalls) = .ok outcome child' ∧
      outcome.call.argv =
        [.string (literal "/bin/sh"), .string (literal "-c"), .string (literal "env"), .null] ∧
      outcome.call.env = [.string (literal "A=2"), .string (literal "B=3"), .null] := by
  obtain ⟨outcome, child', hrun, horder⟩ := shell_runs
  obtain ⟨-, hargv, henv, -⟩ := execve_gets hrun horder
  exact ⟨outcome, child', hrun, hargv, henv⟩

end Started

section Environment

variable {calls : List Call} {profenv : Option Bytes} {answers : ChildAnswers}
variable {order : List (Σ _ : Bytes, Bytes)} {outcome : Outcome} {child' : Child}
variable {name value : Bytes}

/-- The value in a text that starts with the name and an equal sign. -/
def valueIn (name : Bytes) : Slot → Option Bytes
  | .string line =>
      if (name ++ [Byte.equalSign]).isPrefixOf line then some (line.drop (name.length + 1))
      else none
  | _ => none

/-- `getenv` in a program that has been started with this environment.  It does not look for
the empty name. -/
def getenv (env : List Slot) (name : Bytes) : Option Bytes :=
  if name = [] then none else env.findSome? (valueIn name)

/-- A variable that a program can find: there is no equal sign in its name, and no null byte
in its name or its value. -/
def Proper (pr : Σ _ : Bytes, Bytes) : Prop :=
  Byte.equalSign ∉ pr.1 ∧ 0x00 ∉ pr.1 ∧ 0x00 ∉ pr.2

theorem cString_envline
    {pr : Σ _ : Bytes, Bytes}
    (hproper : Proper pr) :
    cString (envline pr) = envline pr := by
  rw [cString_eq_self_iff, envline, List.mem_append, List.mem_cons]
  rintro (h | h | h)
  · exact hproper.2.1 h
  · exact absurd h (by decide)
  · exact hproper.2.2 h

theorem valueIn_envline
    {pr : Σ _ : Bytes, Bytes}
    (hname : Byte.equalSign ∉ name)
    (hproper : Proper pr) :
    valueIn name (.string (envline pr)) = if name = pr.1 then some pr.2 else none := by
  by_cases hkey : name = pr.1
  · have henvline : envline pr = name ++ [Byte.equalSign] ++ pr.2 := by
      rw [envline, hkey, List.append_assoc]
      rfl
    have hlength : name.length + 1 = (name ++ [Byte.equalSign]).length := by
      rw [List.length_append]
      rfl
    rw [if_pos hkey, henvline, valueIn,
      if_pos (List.isPrefixOf_iff_prefix.mpr (List.prefix_append _ _)), hlength, List.drop_left]
  · rw [if_neg hkey, valueIn, if_neg]
    rw [List.isPrefixOf_iff_prefix]
    rintro ⟨rest, hrest⟩
    rw [List.append_assoc] at hrest
    exact hkey (append_cons_inj hname hproper.1 hrest).1

/-- Of proper variables every one that has a name is found. -/
theorem getenv_texts
    (hne : name ≠ [])
    (hname : Byte.equalSign ∉ name)
    (hproper : ∀ pr ∈ order, Proper pr) :
    getenv (order.map (fun pr => .string (cString (envline pr))) ++ [.null]) name =
      order.dlookup name := by
  rw [getenv, if_neg hne]
  induction order with
  | nil => rfl
  | cons pr order ih =>
      obtain ⟨hpr, horder⟩ := List.forall_mem_cons.mp hproper
      obtain ⟨key, value⟩ := pr
      rw [List.map_cons, cString_envline hpr, List.cons_append, List.findSome?_cons,
        valueIn_envline hname hpr]
      by_cases hkey : name = key
      · subst hkey
        rw [if_pos rfl, List.dlookup_cons_eq]
      · rw [if_neg hkey, List.dlookup_cons_ne _ _ hkey]
        exact ih horder

theorem subset_of_mem_getlines
    {content line : Bytes}
    (hline : line ∈ getlines content) :
    line ⊆ content := by
  induction content generalizing line with
  | nil => cases hline
  | cons c rest ih =>
      rw [getlines] at hline
      split at hline
      · rcases List.mem_cons.mp hline with rfl | hline
        · exact List.nil_subset _
        · exact List.subset_cons_of_subset c (ih hline)
      · cases hlines : getlines rest with
        | nil =>
            rw [hlines] at hline
            rw [List.mem_singleton.mp hline]
            exact List.cons_subset_cons c (List.nil_subset _)
        | cons first lines =>
            rw [hlines] at hline ih
            rcases List.mem_cons.mp hline with rfl | hline
            · exact List.cons_subset_cons c (ih List.mem_cons_self)
            · exact List.subset_cons_of_subset c (ih (List.mem_cons_of_mem first hline))

/-- Whatever a profile says, the names have no equal signs. -/
theorem proper_of_profile
    {profile : Option Bytes}
    (hbytes : ∀ content, profile = some content → 0x00 ∉ content)
    (h : profileValue profile name = some value) :
    Proper ⟨name, value⟩ := by
  cases profile with
  | none => cases h
  | some content =>
      obtain ⟨entries, thrown, hentries⟩ := exists_profileEntries (getlines content)
      rw [profileValue_some hentries] at h
      have hmem : ⟨name, value⟩ ∈ entries := List.of_mem_dlookup h
      obtain ⟨line, hline, hname, hvalue⟩ := hentries.bytes _ hmem
      have hnull : 0x00 ∉ line := fun hzero =>
        hbytes content rfl (subset_of_mem_getlines hline hzero)
      exact ⟨hentries.name _ hmem, fun hzero => hnull (hname hzero),
        fun hzero => hnull (hvalue hzero)⟩

theorem addEnv_of_added
    (h : (settings calls).added name = some value) :
    .addEnv name value ∈ calls := by
  induction calls using List.reverseRecOn with
  | nil => cases h
  | append_singleton calls call ih =>
      rw [settings, List.foldl_append] at h
      change ((settings calls).after call).added name = some value at h
      rw [List.mem_append, List.mem_singleton]
      cases call with
      | addEnv key value' =>
          change Function.update (settings calls).added key (some value') name = some value at h
          by_cases hkey : name = key
          · subst hkey
            rw [Function.update_self] at h
            cases h
            exact .inr rfl
          · rw [Function.update_of_ne hkey] at h
            exact .inl (ih h)
      | capture => exact .inl (ih h)
      | command =>
          rw [Settings.after] at h
          split at h <;> exact .inl (ih h)
      | run =>
          rw [Settings.after] at h
          split at h <;> exact .inl (ih h)

/-- **The program finds the variables that have been set.**  If the names that have been
added have no equal signs and there are no null bytes, `getenv` gives for each name that is
not empty the value that has been added last, or else the value that the profile had when
the first command was run, or nothing. -/
theorem getenv_reads
    (hrun : (runInChild profenv answers order).run (session calls) = .ok outcome child')
    (horder : order.Perm child'.env_.entries)
    (hadded : ∀ name value, .addEnv name value ∈ calls → Proper ⟨name, value⟩)
    (hprofile : ∀ content,
      ((settings calls).find profenv).profile = some (some content) → 0x00 ∉ content)
    (hne : name ≠ [])
    (hname : Byte.equalSign ∉ name) :
    getenv outcome.call.env name = ((settings calls).find profenv).value name := by
  obtain ⟨hread, hcall⟩ := runInChild_ok hrun
  have hkeeps := (keeps_session calls).readEnv_ok hread
  have hproper : ∀ pr ∈ order, Proper pr := by
    rintro ⟨key, value⟩ hpr
    have hvalue : ((settings calls).find profenv).value key = some value := by
      rw [← hkeeps.env]
      exact AList.mem_lookup_iff.mpr (horder.mem_iff.mp hpr)
    rcases Option.or_eq_some_iff.mp hvalue with hvalue | ⟨-, hvalue⟩
    · exact hadded key value (addEnv_of_added hvalue)
    · refine proper_of_profile (fun content hcontent => hprofile content ?_) hvalue
      rw [Settings.find] at hcontent ⊢
      exact congrArg some hcontent
  have hnodup : order.NodupKeys := (List.perm_nodupKeys horder).mpr child'.env_.nodupKeys
  rw [hcall, envArray_eq, getenv_texts hne hname hproper,
    List.perm_dlookup name hnodup horder]
  exact hkeeps.env name

theorem settings_shell :
    settings shellCalls =
      { executable := literal "/bin/sh"
        arguments := [literal "-c", literal "env"]
        added := Function.update (fun _ => none) (literal "A") (some (literal "2")) } := by
  simp only [settings, shellCalls, List.foldl_cons, List.foldl_nil, Settings.after]
  rw [if_pos ⟨by decide, trivial⟩]

/-- The shell finds the value that has been added, and the other one of the profile. -/
theorem getenv_reads_example :
    ∃ outcome child',
      (runInChild (some shellProfile.text) ⟨none, none, none, none⟩ shellOrder).run
          (session shellCalls) = .ok outcome child' ∧
      getenv outcome.call.env (literal "A") = some (literal "2") ∧
      getenv outcome.call.env (literal "B") = some (literal "3") := by
  obtain ⟨outcome, child', hrun, horder⟩ := shell_runs
  have hadded : ∀ name value, .addEnv name value ∈ shellCalls → Proper ⟨name, value⟩ := by
    intro name value h
    simp only [shellCalls, List.mem_cons, reduceCtorEq, false_or, List.not_mem_nil, or_false,
      Call.addEnv.injEq] at h
    obtain ⟨rfl, rfl⟩ := h
    exact ⟨by decide, by decide, by decide⟩
  have hprofile : ∀ content,
      ((settings shellCalls).find (some shellProfile.text)).profile = some (some content) →
        0x00 ∉ content := by
    intro content h
    rw [settings_shell] at h
    obtain rfl : shellProfile.text = content := Option.some.inj (Option.some.inj h)
    decide
  have hreads {name : Bytes} := @getenv_reads _ _ _ _ _ _ name hrun horder hadded hprofile
  rw [settings_shell] at hreads
  refine ⟨outcome, child', hrun, (hreads (by decide) (by decide)).trans ?_,
    (hreads (by decide) (by decide)).trans ?_⟩
  · rfl
  · change Option.or none (profileValue (some shellProfile.text) (literal "B")) = _
    rw [Option.none_or, profileValue, Profile.text, getlines_text shellProfile.wellFormed,
      readLines_text shellProfile.wellFormed]
    rfl

end Environment

end Child
end Bren
end Brenlib
