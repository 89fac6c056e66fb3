import Brenlib.Bren.Child

/-!
# What `readEnv_` makes of the profile

A line is an export command if an equal sign follows the word `export` and the line is not
shorter than the source demands.  `Reads` says what an iteration makes of a line.

**Results.**
* `reads`: an iteration skips a line that is no export command, inserts a variable that is
  new, and throws if the equal sign is the last byte of the line.
* `profile_survived_iff`: exactly which profiles `readEnv_` survives.
* `Profile.readEnv_reads_back`: a well-formed profile is read back.
-/

namespace Brenlib
namespace Bren

/-- `'\''`. -/
def Byte.singleQuote : Byte := 0x27

namespace Child

/-- The word `export`, a name, an equal sign and what follows it. -/
def exportLine (name rest : Bytes) : Bytes :=
  literal "export " ++ (name ++ Byte.equalSign :: rest)

/-- A line with the value between single quotes. -/
def quotedLine (name value : Bytes) : Bytes :=
  exportLine name (Byte.singleQuote :: (value ++ [Byte.singleQuote]))

/-- What an iteration makes of a line. -/
inductive Reads (line : Bytes) (child : Child) : EStateM.Result StdException Child Unit → Prop
  | skip
      (hskip : ∀ name rest, Byte.equalSign ∉ name → line = exportLine name rest →
        name.length + rest.length < 2) :
      Reads line child (.ok () child)
  | throws
      {name : Bytes}
      (hname : Byte.equalSign ∉ name)
      (hlength : 2 ≤ name.length)
      (hline : line = exportLine name []) :
      Reads line child
        (.error ⟨.outOfRange, substrText (name.length + 9) (name.length + 8)⟩ child)
  | insert
      {name rest : Bytes} {c : Byte}
      (hname : Byte.equalSign ∉ name)
      (hlength : 2 ≤ name.length + (c :: rest).length)
      (hline : line = exportLine name (c :: rest)) :
      Reads line child
        (.ok () { child with env_ := insertNew child.env_ name rest.dropLast })

section Lines

variable {line name rest : Bytes} {child child' : Child}

theorem substr_append
    {before : Bytes} {pos : Nat}
    (hpos : pos = before.length)
    (rest : Bytes) (n : Nat) :
    substr (before ++ rest) pos n = .ok (rest.take n) := by
  have hle : ¬ (before ++ rest).length < pos := by
    rw [List.length_append]
    omega
  rw [substr, Bren.substr, if_neg hle, hpos, List.drop_left]
  rfl

theorem substr_throws
    {s : Bytes} {pos : Nat}
    (h : s.length < pos)
    (n : Nat) :
    substr s pos n = .error ⟨.outOfRange, substrText pos s.length⟩ := by
  rw [substr, Bren.substr, if_pos h]
  rfl

theorem length_exportLine
    (name rest : Bytes) :
    (exportLine name rest).length = name.length + rest.length + 8 := by
  have hexport : (literal "export ").length = 7 := rfl
  simp only [exportLine, List.length_append, List.length_cons, hexport]
  omega

theorem exportLine_inj
    {name' rest' : Bytes}
    (hname : Byte.equalSign ∉ name)
    (hname' : Byte.equalSign ∉ name')
    (h : exportLine name rest = exportLine name' rest') :
    name = name' ∧ rest = rest' :=
  append_cons_inj hname hname' (List.append_cancel_left h)

theorem find_exportLine
    (hname : Byte.equalSign ∉ name)
    (rest : Bytes) :
    find (exportLine name rest) Byte.equalSign 7 = some (7 + name.length) :=
  find_append hname (literal "export ") rest

theorem sizeSub_of_le
    {a b : Nat}
    (h : b ≤ a) :
    sizeSub a b = a - b :=
  if_pos h

/-- Where the last byte is not there to be left out, the number wraps around. -/
theorem take_sizeSub
    (rest : Bytes) :
    rest.take (sizeSub (rest.length + 2) 3) = rest.dropLast := by
  cases rest with
  | nil => rfl
  | cons d rest =>
      rw [sizeSub_of_le (by rw [List.length_cons]; omega), List.dropLast_eq_take]
      rfl

theorem substr_name
    (name rest : Bytes) :
    substr (exportLine name rest) 7 (sizeSub (7 + name.length) 7) = .ok name := by
  have hexport : 7 = (literal "export ").length := rfl
  rw [exportLine, substr_append hexport, sizeSub_of_le (by omega), List.take_left' (by omega)]

/-- The value is what stands between the byte behind the equal sign and the last one. -/
theorem readVariable_exportLine
    (c : Byte) (name rest : Bytes) (child : Child) :
    (readVariable (exportLine name (c :: rest)) (7 + name.length)).run child =
      .ok () { child with env_ := insertNew child.env_ name rest.dropLast } := by
  have hline : exportLine name (c :: rest) =
      literal "export " ++ (name ++ [Byte.equalSign, c]) ++ rest := by
    simp [exportLine]
  have hpos : 7 + name.length + 2 =
      (literal "export " ++ (name ++ [Byte.equalSign, c])).length := by
    rw [List.length_append, List.length_append, Nat.add_assoc]
    rfl
  have hcount : sizeSub (exportLine name (c :: rest)).length (7 + name.length) =
      rest.length + 2 := by
    rw [length_exportLine, List.length_cons, sizeSub_of_le (by omega)]
    omega
  have hvalue : substr (exportLine name (c :: rest)) (7 + name.length + 2)
      (sizeSub (sizeSub (exportLine name (c :: rest)).length (7 + name.length)) 3) =
        .ok rest.dropLast := by
    rw [hcount, hline, substr_append hpos, take_sizeSub]
  rw [readVariable, substr_name, run_bind_ok (run_ofExcept _ child), hvalue,
    run_bind_ok (run_ofExcept _ child)]
  change EStateM.Result.ok () (if name ∈ child.env_ then child else _) = _
  unfold insertNew
  by_cases hmem : name ∈ child.env_
  · rw [if_pos hmem, if_pos hmem]
  · rw [if_neg hmem, if_neg hmem]

/-- Where the equal sign is the last byte, the value would start behind the end. -/
theorem readVariable_throws
    (name : Bytes) (child : Child) :
    (readVariable (exportLine name []) (7 + name.length)).run child =
      .error ⟨.outOfRange, substrText (name.length + 9) (name.length + 8)⟩ child := by
  have hlength : (exportLine name []).length = name.length + 8 := length_exportLine name []
  have hlt : (exportLine name []).length < 7 + name.length + 2 := by omega
  have hpos : 7 + name.length + 2 = name.length + 9 := by omega
  rw [readVariable, substr_name, run_bind_ok (run_ofExcept _ child), substr_throws hlt, hlength,
    hpos]
  exact run_bind_error rfl _

/-- The checks in front of the search for the equal sign. -/
theorem readLine_of_export
    {after : Bytes}
    (hlength : 3 ≤ after.length)
    (child : Child) :
    (readLine (literal "export " ++ after)).run child =
      match find (literal "export " ++ after) Byte.equalSign 7 with
      | none => .ok () child
      | some pos => (readVariable (literal "export " ++ after) pos).run child := by
  have hne : literal "export " ++ after ≠ [] :=
    List.append_ne_nil_of_left_ne_nil (by decide) after
  have hhash : ¬ (literal "export " ++ after).head? = some Byte.hash := by
    rw [List.head?_append_of_ne_nil _ (by decide)]
    decide
  have hshort : ¬ (literal "export " ++ after).length < 10 := by
    rw [List.length_append]
    exact Nat.not_lt.mpr (Nat.add_le_add_left hlength 7)
  have hword : substr (literal "export " ++ after) 0 7 = .ok (literal "export ") :=
    congrArg Except.ok (List.take_left' rfl)
  rw [readLine, if_neg hne, if_neg hhash, if_neg hshort, hword,
    run_bind_ok (run_ofExcept _ child), if_neg (not_not_intro rfl)]
  cases find (literal "export " ++ after) Byte.equalSign 7 <;> rfl

theorem readLine_exportLine
    (hname : Byte.equalSign ∉ name)
    (hlength : 2 ≤ name.length + rest.length)
    (child : Child) :
    (readLine (exportLine name rest)).run child =
      (readVariable (exportLine name rest) (7 + name.length)).run child := by
  have hafter : 3 ≤ (name ++ Byte.equalSign :: rest).length := by
    rw [List.length_append, List.length_cons]
    omega
  have hrun := readLine_of_export hafter child
  have hfind : find (literal "export " ++ (name ++ Byte.equalSign :: rest)) Byte.equalSign 7 =
      some (7 + name.length) :=
    find_exportLine hname rest
  rw [hfind] at hrun
  exact hrun

/-- A line is skipped if it is too short or is no export command. -/
theorem readLine_of_not_export
    (h : ∀ after, line = literal "export " ++ after → after.length < 3)
    (child : Child) :
    (readLine line).run child = .ok () child := by
  by_cases hempty : line = []
  · rw [readLine, if_pos hempty]
    rfl
  by_cases hhash : line.head? = some Byte.hash
  · rw [readLine, if_neg hempty, if_pos hhash]
    rfl
  by_cases hshort : line.length < 10
  · rw [readLine, if_neg hempty, if_neg hhash, if_pos hshort]
    rfl
  have hword : line.take 7 ≠ literal "export " := by
    intro hword
    have hlt := h (line.drop 7) (by rw [← hword, List.take_append_drop])
    rw [List.length_drop] at hlt
    omega
  have hsubstr : substr line 0 7 = .ok (line.take 7) := rfl
  rw [readLine, if_neg hempty, if_neg hhash, if_neg hshort, hsubstr,
    run_bind_ok (run_ofExcept _ child), if_pos hword]
  rfl

/-- What an iteration makes of a line. -/
theorem reads
    (line : Bytes) (child : Child) :
    Reads line child ((readLine line).run child) := by
  by_cases hexport : ∃ after, line = literal "export " ++ after ∧ 3 ≤ after.length
  · obtain ⟨after, rfl, hlength⟩ := hexport
    by_cases hmem : Byte.equalSign ∈ after
    · obtain ⟨name, rest, rfl, hname⟩ := List.eq_append_cons_of_mem hmem
      rw [List.length_append, List.length_cons] at hlength
      change Reads (exportLine name rest) child ((readLine (exportLine name rest)).run child)
      rw [readLine_exportLine hname (Nat.le_of_succ_le_succ hlength)]
      cases rest with
      | nil =>
          rw [readVariable_throws]
          exact .throws hname (Nat.le_of_succ_le_succ hlength) rfl
      | cons c rest =>
          rw [readVariable_exportLine]
          exact .insert hname (Nat.le_of_succ_le_succ hlength) rfl
    · have hnone : find (literal "export " ++ after) Byte.equalSign 7 = none :=
        find_append_eq_none hmem (literal "export ")
      rw [readLine_of_export hlength, hnone]
      refine .skip fun name rest _ hline => absurd ?_ hmem
      rw [List.append_cancel_left hline]
      exact List.mem_append_right name List.mem_cons_self
  · rw [readLine_of_not_export fun after h => Nat.lt_of_not_le fun hle => hexport ⟨after, h, hle⟩]
    refine .skip fun name rest _ hline => Nat.lt_of_not_le fun hle => hexport ⟨_, hline, ?_⟩
    rw [List.length_append, List.length_cons]
    omega

end Lines

/-- The environment has grown: its entries are still there, and nothing else has
changed. -/
def Grown (child s : Child) : Prop :=
  ∃ env, s = { child with env_ := env } ∧
    ∀ name ∈ child.env_, env.lookup name = child.env_.lookup name

section Loop

variable {line name : Bytes} {lines before after : List Bytes} {child child' s s' : Child}

theorem readLines_append
    (before after : List Bytes) :
    readLines (before ++ after) = (readLines before >>= fun _ => readLines after) := by
  induction before with
  | nil =>
      exact (pure_bind () fun _ => readLines after).symm
  | cons line before ih =>
      rw [List.cons_append, readLines, ih, readLines, bind_assoc]

/-- A loop that ends without an exception has got over each of its parts. -/
theorem readLines_append_ok
    (h : (readLines (before ++ after)).run child = .ok () child') :
    ∃ s, (readLines before).run child = .ok () s ∧ (readLines after).run s = .ok () child' := by
  rw [readLines_append] at h
  cases hbefore : (readLines before).run child with
  | ok _ s => exact ⟨s, rfl, (run_bind_ok hbefore _).symm.trans h⟩
  | error e s => cases (run_bind_error hbefore _).symm.trans h

theorem readLines_singleton
    (line : Bytes) :
    readLines [line] = readLine line := by
  rw [readLines, readLines]
  exact bind_pure (readLine line)

theorem mem_insertNew
    {m : UnorderedMap Bytes Bytes} {key value : Bytes} :
    name ∈ insertNew m key value ↔ name = key ∨ name ∈ m := by
  unfold insertNew
  by_cases hmem : key ∈ m
  · rw [if_pos hmem]
    exact ⟨.inr, fun h => h.elim (fun heq => heq ▸ hmem) id⟩
  · rw [if_neg hmem]
    exact AList.mem_insert m

/-- An iteration that ends without an exception. -/
theorem readLine_ok_cases
    (h : (readLine line).run child = .ok () s) :
    s = child ∨
      ∃ name rest c, Byte.equalSign ∉ name ∧ line = exportLine name (c :: rest) ∧
        s = { child with env_ := insertNew child.env_ name rest.dropLast } := by
  generalize hresult : (readLine line).run child = result at h
  have hreads := reads line child
  rw [hresult] at hreads
  cases hreads with
  | skip =>
      cases h
      exact .inl rfl
  | throws =>
      cases h
  | @insert name rest c hname hlength hline =>
      cases h
      exact .inr ⟨name, rest, c, hname, hline, rfl⟩

theorem Grown.refl
    (child : Child) :
    Grown child child :=
  ⟨child.env_, rfl, fun _ _ => rfl⟩

theorem Grown.mem
    (h : Grown child s)
    (hmem : name ∈ child.env_) :
    name ∈ s.env_ := by
  obtain ⟨env, rfl, hkept⟩ := h
  rw [← AList.lookup_isSome, hkept name hmem, AList.lookup_isSome]
  exact hmem

theorem Grown.trans
    (h : Grown child s)
    (h' : Grown s s') :
    Grown child s' := by
  have hmem {name : Bytes} (hname : name ∈ child.env_) : name ∈ s.env_ := h.mem hname
  obtain ⟨env, rfl, hkept⟩ := h
  obtain ⟨env', rfl, hkept'⟩ := h'
  exact ⟨env', rfl, fun name hname => (hkept' name (hmem hname)).trans (hkept name hname)⟩

theorem grown_readLine
    (h : (readLine line).run child = .ok () s) :
    Grown child s := by
  rcases readLine_ok_cases h with rfl | ⟨name, rest, c, -, -, rfl⟩
  · exact .refl _
  · refine ⟨_, rfl, fun name' hmem => ?_⟩
    rw [lookup_insertNew, if_neg]
    rintro ⟨rfl, hnone⟩
    exact AList.lookup_eq_none.mp hnone hmem

/-- The loop lets the environment grow only. -/
theorem grown_readLines
    (h : (readLines lines).run child = .ok () s) :
    Grown child s := by
  induction lines using List.reverseRecOn generalizing s with
  | nil =>
      cases h
      exact .refl _
  | append_singleton lines line ih =>
      obtain ⟨t, hlines, hline⟩ := readLines_append_ok h
      rw [readLines_singleton] at hline
      exact (ih hlines).trans (grown_readLine hline)

/-- Without a line that throws, the loop ends without an exception. -/
theorem readLines_finishes
    (hvalue : ∀ name, exportLine name [] ∈ lines → Byte.equalSign ∉ name → name.length < 2)
    (child : Child) :
    ∃ s, (readLines lines).run child = .ok () s := by
  induction lines generalizing child with
  | nil =>
      exact ⟨child, rfl⟩
  | cons line lines ih =>
      have hfinishes : ∃ s, (readLine line).run child = .ok () s := by
        generalize hresult : (readLine line).run child = result
        have hreads := reads line child
        rw [hresult] at hreads
        cases hreads with
        | skip => exact ⟨child, rfl⟩
        | @throws name hname hlength hline =>
            exact absurd (hvalue name (hline ▸ List.mem_cons_self) hname) (by omega)
        | insert => exact ⟨_, rfl⟩
      obtain ⟨s, hs⟩ := hfinishes
      obtain ⟨s', hs'⟩ := ih (fun name hmem => hvalue name (List.mem_cons_of_mem line hmem)) s
      exact ⟨s', by rw [readLines, run_bind_ok hs, hs']⟩

/-- A line with a name and no value is not got over. -/
theorem length_lt_of_readLines_ok
    (h : (readLines lines).run child = .ok () child')
    (hmem : exportLine name [] ∈ lines)
    (hname : Byte.equalSign ∉ name) :
    name.length < 2 := by
  obtain ⟨before, after, rfl⟩ := List.append_of_mem hmem
  obtain ⟨s, -, hafter⟩ := readLines_append_ok h
  by_contra hlength
  have hthrows := (@readLine_exportLine name [] hname (Nat.le_of_not_lt hlength) s).trans
    (readVariable_throws name s)
  cases (run_bind_error hthrows _).symm.trans hafter

end Loop

/-- A complete export command: a line with a name, and with a value between single
quotes. -/
def Complete (line : Bytes) : Prop :=
  ∃ name value, line = quotedLine name value ∧ Byte.equalSign ∉ name ∧ name ≠ []

/-- The first `readEnv_` survives a profile: it ends without an exception and keeps the
entries, and the iterations over lines that are not complete export commands change
nothing. -/
structure Survives (content : Bytes) (child : Child) : Prop where
  finishes : ∃ child', (readEnv_ (some content)).run child = .ok () child' ∧
    ∀ name ∈ child.env_, child'.env_.lookup name = child.env_.lookup name
  skips : ∀ before line after s,
    getlines content = before ++ line :: after → ¬ Complete line →
    (readLines before).run { child with triedEnv_ := true } = .ok () s →
    (readLine line).run s = .ok () s

section Survival

variable {line content : Bytes} {lines : List Bytes} {child s : Child}

theorem readEnv_run
    (hfirst : child.triedEnv_ = false)
    (content : Bytes) :
    (readEnv_ (some content)).run child =
      (readLines (getlines content)).run { child with triedEnv_ := true } := by
  rw [readEnv_, run_bind_ok (EStateM.run_get child), hfirst, if_neg Bool.false_ne_true]
  rfl

/-- `readEnv_` changes the environment and its flag only. -/
theorem eq_of_readEnv_ok
    {profenv : Option Bytes} {child' : Child}
    (h : (readEnv_ profenv).run child = .ok () child') :
    ∃ env tried, child' = { child with env_ := env, triedEnv_ := tried } := by
  unfold readEnv_ at h
  rw [run_bind_ok (EStateM.run_get child)] at h
  cases hfirst : child.triedEnv_ with
  | true =>
      rw [hfirst, if_pos rfl] at h
      cases h
      exact ⟨child.env_, child.triedEnv_, rfl⟩
  | false =>
      rw [hfirst, if_neg Bool.false_ne_true] at h
      cases profenv with
      | none =>
          cases h
          exact ⟨child.env_, true, rfl⟩
      | some content =>
          obtain ⟨env, rfl, -⟩ := grown_readLines h
          exact ⟨env, true, rfl⟩

/-- An iteration changes nothing where the variable is there already. -/
theorem insertNew_eq_self_iff
    {m : UnorderedMap Bytes Bytes} {name value : Bytes} :
    insertNew m name value = m ↔ name ∈ m := by
  refine ⟨fun h => ?_, fun h => if_pos h⟩
  rw [← h]
  exact mem_insertNew.mpr (.inl rfl)

/-- Where incomplete lines are skipped, new variables come from complete ones. -/
theorem mem_of_skips
    {name : Bytes}
    (hskips : ∀ before line after t, lines = before ++ line :: after → ¬ Complete line →
      (readLines before).run child = .ok () t → (readLine line).run t = .ok () t)
    (h : (readLines lines).run child = .ok () s)
    (hmem : name ∈ s.env_) :
    name ∈ child.env_ ∨ ∃ value, quotedLine name value ∈ lines := by
  induction lines using List.reverseRecOn generalizing s with
  | nil =>
      cases h
      exact .inl hmem
  | append_singleton lines line ih =>
      obtain ⟨t, hlines, hline⟩ := readLines_append_ok h
      rw [readLines_singleton] at hline
      have hearlier (hmem : name ∈ t.env_) :
          name ∈ child.env_ ∨ ∃ value, quotedLine name value ∈ lines ++ [line] := by
        have hrec := ih (fun before line' after t' hsplit =>
          hskips before line' (after ++ [line]) t' (by simp [hsplit])) hlines hmem
        exact hrec.imp_right fun ⟨value, hvalue⟩ =>
          ⟨value, List.mem_append_left [line] hvalue⟩
      by_cases hcomplete : Complete line
      · rcases readLine_ok_cases hline with rfl | ⟨name', rest, c, hname, hexport, rfl⟩
        · exact hearlier hmem
        · rcases mem_insertNew.mp hmem with rfl | hmem'
          · obtain ⟨name', value, rfl, hname', -⟩ := hcomplete
            obtain ⟨rfl, -⟩ := exportLine_inj hname' hname hexport
            exact .inr ⟨value, by simp⟩
          · exact hearlier hmem'
      · have hskip := hskips lines line [] t rfl hcomplete hlines
        rw [hskip] at hline
        cases hline
        exact hearlier hmem

/-- A complete export command sets its variable, if it is not set already. -/
theorem mem_of_quotedLine
    {name value : Bytes}
    (hname : Byte.equalSign ∉ name)
    (h : (readLines lines).run child = .ok () s)
    (hmem : quotedLine name value ∈ lines) :
    name ∈ s.env_ := by
  obtain ⟨before, after, rfl⟩ := List.append_of_mem hmem
  obtain ⟨t, -, hrest⟩ := readLines_append_ok h
  rw [← List.singleton_append] at hrest
  obtain ⟨t', hline, hafter⟩ := readLines_append_ok hrest
  have hlength : 2 ≤ name.length +
      (Byte.singleQuote :: (value ++ [Byte.singleQuote])).length := by
    rw [List.length_cons, List.length_append, List.length_singleton]
    omega
  rw [readLines_singleton, quotedLine, readLine_exportLine hname hlength,
    readVariable_exportLine] at hline
  cases hline
  exact (grown_readLines hafter).mem (mem_insertNew.mpr (.inl rfl))

/-- An incomplete line of a profile that is survived has found its variable set. -/
theorem Survives.mem
    {name rest : Bytes} {before after : List Bytes}
    (h : Survives content child)
    (hfirst : child.triedEnv_ = false)
    (hsplit : getlines content = before ++ exportLine name rest :: after)
    (hname : Byte.equalSign ∉ name)
    (hrest : rest ≠ [])
    (hlength : 2 ≤ name.length + rest.length)
    (hincomplete : ¬ Complete (exportLine name rest)) :
    name ∈ child.env_ ∨ ∃ value, quotedLine name value ∈ before := by
  obtain ⟨⟨child', hrun, -⟩, hskips⟩ := h
  rw [readEnv_run hfirst, hsplit] at hrun
  obtain ⟨s, hbefore, -⟩ := readLines_append_ok hrun
  have hskip := hskips before _ after s hsplit hincomplete hbefore
  -- the iteration over the line inserts the variable, so it has been there before
  obtain ⟨c, rest, rfl⟩ := List.exists_cons_of_ne_nil hrest
  rw [readLine_exportLine hname hlength, readVariable_exportLine] at hskip
  injection hskip with _ hsame
  have hmem : name ∈ s.env_ := by
    rw [← insertNew_eq_self_iff]
    exact congrArg env_ hsame
  refine @mem_of_skips before { child with triedEnv_ := true } s name
    (fun before' line' after' t hsplit' => ?_) hbefore hmem
  refine hskips before' line' (after' ++ exportLine name (c :: rest) :: after) t ?_
  rw [hsplit, hsplit', List.append_assoc, List.cons_append]

/-- A line that neither throws nor sets a new variable changes nothing. -/
theorem readLine_skips
    (hvalue : ∀ name, line = exportLine name [] → Byte.equalSign ∉ name → name.length < 2)
    (hset : ∀ name rest, line = exportLine name rest → Byte.equalSign ∉ name → rest ≠ [] →
      2 ≤ name.length + rest.length → name ∈ s.env_) :
    (readLine line).run s = .ok () s := by
  generalize hresult : (readLine line).run s = result
  have hreads := reads line s
  rw [hresult] at hreads
  cases hreads with
  | skip => rfl
  | throws hname hlength hline =>
      exact absurd (hvalue _ hline hname) (Nat.not_lt.mpr hlength)
  | @insert name rest c hname hlength hline =>
      have hmem := hset name (c :: rest) hline hname (List.cons_ne_nil c rest) hlength
      rw [insertNew_eq_self_iff.mpr hmem]

/-- **The first `readEnv_` survives a profile** exactly if no export command ends with its
equal sign, and each that lacks its name or closed quotes is for a variable that is set
already, by the caller or by a complete command further up.  Lines that are too short do not
count. -/
theorem profile_survived_iff
    (hfirst : child.triedEnv_ = false)
    (content : Bytes) :
    Survives content child ↔
      (∀ name, exportLine name [] ∈ getlines content → Byte.equalSign ∉ name →
        name.length < 2) ∧
      ∀ before name rest after,
        getlines content = before ++ exportLine name rest :: after →
        Byte.equalSign ∉ name → rest ≠ [] → 2 ≤ name.length + rest.length →
        ¬ Complete (exportLine name rest) →
          name ∈ child.env_ ∨ ∃ value, quotedLine name value ∈ before := by
  constructor
  · intro h
    obtain ⟨child', hrun, -⟩ := h.finishes
    rw [readEnv_run hfirst] at hrun
    exact ⟨fun name hmem hname => length_lt_of_readLines_ok hrun hmem hname,
      fun before name rest after hsplit hname hrest hlength hincomplete =>
        h.mem hfirst hsplit hname hrest hlength hincomplete⟩
  · rintro ⟨hvalue, hset⟩
    constructor
    · obtain ⟨child', hrun⟩ := readLines_finishes hvalue { child with triedEnv_ := true }
      obtain ⟨env, rfl, hkept⟩ := grown_readLines hrun
      exact ⟨_, (readEnv_run hfirst content).trans hrun, hkept⟩
    · intro before line after s hsplit hincomplete hbefore
      have hmem : line ∈ getlines content := by
        rw [hsplit]
        exact List.mem_append_right before List.mem_cons_self
      refine readLine_skips (fun name hline => hvalue name (hline ▸ hmem)) ?_
      rintro name rest rfl hname hrest hlength
      rcases hset before name rest after hsplit hname hrest hlength hincomplete with
        hold | ⟨value, hvalue⟩
      · exact (grown_readLines hbefore).mem hold
      · exact mem_of_quotedLine hname hbefore hvalue

/-- A profile with a single complete export command. -/
theorem profile_survived_iff_complete :
    Survives (literal "export AB='c'\n") {} := by
  have hlines :
      getlines (literal "export AB='c'\n") = [quotedLine (literal "AB") (literal "c")] := by
    decide
  have hcomplete : Complete (quotedLine (literal "AB") (literal "c")) :=
    ⟨_, _, rfl, by decide, by decide⟩
  refine (profile_survived_iff rfl _).mpr ⟨fun name hmem hname => ?_, ?_⟩
  · rw [hlines, List.mem_singleton] at hmem
    obtain ⟨-, hrest⟩ := exportLine_inj hname (by decide) hmem
    cases hrest
  · intro before name rest after hsplit _ _ _ hincomplete
    rw [hlines] at hsplit
    have hmem : exportLine name rest ∈ [quotedLine (literal "AB") (literal "c")] := by
      rw [hsplit]
      exact List.mem_append_right before List.mem_cons_self
    rw [List.mem_singleton.mp hmem] at hincomplete
    exact absurd hcomplete hincomplete

/-- A variable that is set to the empty text without quotes. -/
theorem throws_on_empty_value :
    ¬ Survives (literal "export AB=\n") {} := by
  rintro ⟨⟨child', hrun, -⟩, -⟩
  have hmem : exportLine (literal "AB") [] ∈ getlines (literal "export AB=\n") := by
    decide
  rw [readEnv_run rfl] at hrun
  exact absurd (length_lt_of_readLines_ok hrun hmem (by decide)) (by decide)

end Survival

end Child

end Bren
end Brenlib
