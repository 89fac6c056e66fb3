import Brenlib.Bren.ChildEnvironment

/-!
# `readEnv_` reads back a well-formed profile

A profile sets variables, each between single quotes on a line of its own; the other lines
are empty or comments.  `insertAll` is what the loop makes of the environment: where a
variable is there already, it stays.

**Results.**
* `getlines_text`: `std::getline` gives the lines of the profile, also where the last line
  break is missing.
* `readLines_text`: what the loop makes of the lines.
* `Profile.readEnv_reads_back`: afterwards the environment has the variables of the
  profile that are new, the entries it had before, and no others.
-/

namespace Brenlib
namespace Bren

namespace Child

/-- A line of a profile. -/
inductive ProfileLine where
  | empty
  | comment (text : Bytes)
  | assignment (name value : Bytes)
deriving DecidableEq, Repr

namespace ProfileLine

/-- The line without its line break. -/
def text : ProfileLine → Bytes
  | empty => []
  | comment text => Byte.hash :: text
  | assignment name value =>
      literal "export " ++ (name ++ Byte.equalSign :: Byte.singleQuote ::
        (value ++ [Byte.singleQuote]))

def WellFormed : ProfileLine → Prop
  | empty => True
  | comment text => Byte.lf ∉ text
  | assignment name value =>
      name ≠ [] ∧ Byte.equalSign ∉ name ∧ Byte.lf ∉ name ∧ Byte.lf ∉ value

instance : (line : ProfileLine) → Decidable line.WellFormed
  | empty => inferInstanceAs (Decidable True)
  | comment _ => inferInstanceAs (Decidable (_ ∉ _))
  | assignment _ _ => inferInstanceAs (Decidable (_ ∧ _))

/-- The variable that the line sets. -/
def entry? : ProfileLine → Option (Σ _ : Bytes, Bytes)
  | assignment name value => some ⟨name, value⟩
  | _ => none

end ProfileLine

/-- A well-formed profile, each of whose variables is set once. -/
structure Profile where
  lines : List ProfileLine
  wellFormed : ∀ line ∈ lines, line.WellFormed
  distinct : (lines.filterMap ProfileLine.entry?).NodupKeys

/-- The lines, each with its line break. -/
def Profile.text (p : Profile) : Bytes :=
  (p.lines.map fun line => line.text ++ [Byte.lf]).flatten

/-- The entries of a list are inserted one after the other, where they are new. -/
def insertAll
    (m : UnorderedMap Bytes Bytes) (entries : List (Σ _ : Bytes, Bytes)) :
    UnorderedMap Bytes Bytes :=
  entries.foldl (fun m entry => insertNew m entry.1 entry.2) m

/-- The entries of the map go before those of the list. -/
theorem lookup_insertAll
    (m : UnorderedMap Bytes Bytes) (entries : List (Σ _ : Bytes, Bytes)) (name : Bytes) :
    (insertAll m entries).lookup name = (m.lookup name).or (entries.dlookup name) := by
  induction entries generalizing m with
  | nil =>
      rw [List.dlookup_nil, Option.or_none]
      rfl
  | cons entry entries ih =>
      obtain ⟨key, value⟩ := entry
      change (insertAll (insertNew m key value) entries).lookup name = _
      rw [ih, lookup_insertNew]
      by_cases hname : name = key
      · subst hname
        rw [List.dlookup_cons_eq]
        cases m.lookup name <;> simp
      · rw [if_neg fun h => hname h.1, List.dlookup_cons_ne _ _ hname]

section Lines

variable {line rest s : Bytes}

theorem getlines_append
    (hline : Byte.lf ∉ line)
    (rest : Bytes) :
    getlines (line ++ Byte.lf :: rest) = line :: getlines rest := by
  induction line with
  | nil =>
      exact if_pos rfl
  | cons c line ih =>
      rw [List.mem_cons, not_or] at hline
      rw [List.cons_append, getlines, if_neg (Ne.symm hline.1), ih hline.2]

/-- A line break at the end makes at most an empty line. -/
theorem getlines_append_lf
    (s : Bytes) :
    getlines (s ++ [Byte.lf]) = getlines s ∨
      getlines (s ++ [Byte.lf]) = getlines s ++ [[]] := by
  induction s with
  | nil =>
      exact .inr rfl
  | cons c s ih =>
      rw [List.cons_append, getlines, getlines]
      by_cases hc : c = Byte.lf
      · rw [if_pos hc, if_pos hc]
        exact ih.imp (congrArg _) (congrArg _)
      · rw [if_neg hc, if_neg hc]
        rcases ih with ih | ih
        · rw [ih]
          exact .inl rfl
        · rw [ih]
          cases getlines s with
          | nil => exact .inl rfl
          | cons line lines => exact .inr rfl

theorem lf_not_mem_text
    {line : ProfileLine}
    (h : line.WellFormed) :
    Byte.lf ∉ line.text := by
  have hexport : Byte.lf ∉ literal "export " := by decide
  cases line with
  | empty =>
      exact List.not_mem_nil
  | comment text =>
      rw [ProfileLine.text, List.mem_cons, not_or]
      exact ⟨by decide, h⟩
  | assignment name value =>
      obtain ⟨-, -, hname, hvalue⟩ := h
      simp only [ProfileLine.text, List.mem_append, List.mem_cons, not_or, List.not_mem_nil,
        not_false_eq_true, and_true]
      exact ⟨hexport, hname, by decide, by decide, hvalue, by decide⟩

/-- The lines of a profile. -/
theorem getlines_text
    {lines : List ProfileLine}
    (h : ∀ line ∈ lines, line.WellFormed) :
    getlines (lines.map fun line => line.text ++ [Byte.lf]).flatten =
      lines.map ProfileLine.text := by
  induction lines with
  | nil =>
      rfl
  | cons line lines ih =>
      rw [List.map_cons, List.flatten_cons, List.append_assoc, List.singleton_append,
        getlines_append (lf_not_mem_text (h line List.mem_cons_self)),
        ih fun line' hmem => h line' (List.mem_cons_of_mem line hmem), List.map_cons]

end Lines

theorem mem_entries
    {name value : Bytes} {lines : List ProfileLine} :
    ⟨name, value⟩ ∈ lines.filterMap ProfileLine.entry? ↔ .assignment name value ∈ lines := by
  rw [List.mem_filterMap]
  constructor
  · rintro ⟨line, hmem, hentry⟩
    cases line with
    | assignment name' value' =>
        cases hentry
        exact hmem
    | _ => cases hentry
  · exact fun hmem => ⟨_, hmem, rfl⟩

section Loop

variable {line : ProfileLine} {lines : List ProfileLine} {child : Child}

/-- What an iteration makes of a line. -/
theorem readLine_text
    (h : line.WellFormed)
    (child : Child) :
    (readLine line.text).run child =
      .ok () { child with env_ := insertAll child.env_ line.entry?.toList } := by
  cases line with
  | empty =>
      rfl
  | comment text =>
      refine readLine_of_not_export (fun after hline => ?_) child
      have hhead := congrArg List.head? hline
      rw [List.head?_append_of_ne_nil _ (by decide)] at hhead
      exact absurd hhead (by simp [ProfileLine.text, literal, Byte.hash])
  | assignment name value =>
      obtain ⟨-, hname, -, -⟩ := h
      have hlength : 2 ≤ name.length +
          (Byte.singleQuote :: (value ++ [Byte.singleQuote])).length := by
        rw [List.length_cons, List.length_append, List.length_singleton]
        omega
      change (readLine (exportLine name _)).run child = _
      rw [readLine_exportLine hname hlength, readVariable_exportLine, List.dropLast_concat]
      rfl

/-- What the loop makes of the lines of a profile. -/
theorem readLines_text
    (h : ∀ line ∈ lines, line.WellFormed)
    (child : Child) :
    (readLines (lines.map ProfileLine.text)).run child =
      .ok ()
        { child with
          env_ := insertAll child.env_ (lines.filterMap ProfileLine.entry?) } := by
  induction lines generalizing child with
  | nil =>
      rfl
  | cons line lines ih =>
      rw [List.map_cons, readLines, run_bind_ok (readLine_text (h line List.mem_cons_self) child),
        ih fun line' hmem => h line' (List.mem_cons_of_mem line hmem)]
      have hentries : (line :: lines).filterMap ProfileLine.entry? =
          line.entry?.toList ++ lines.filterMap ProfileLine.entry? := by
        rw [List.filterMap_eq_flatMap_toList, List.flatMap_cons,
          ← List.filterMap_eq_flatMap_toList]
      rw [hentries, insertAll, insertAll, insertAll, List.foldl_append]

/-- The last line break of a text makes no difference to the loop. -/
theorem readLines_append_lf
    (s : Bytes) (child : Child) :
    (readLines (getlines (s ++ [Byte.lf]))).run child =
      (readLines (getlines s)).run child := by
  rcases getlines_append_lf s with h | h
  · rw [h]
  · rw [h, readLines_append, readLines_singleton]
    have hempty : readLine [] = pure () := rfl
    rw [hempty]
    exact congrArg (EStateM.run · child) (bind_pure (readLines (getlines s)))

end Loop

/-- **A well-formed profile is read back.**  The first `readEnv_` keeps the entries that
there are, and adds the variables of the profile that are new with their values.  A later
one changes nothing, whatever has been added in between. -/
theorem Profile.readEnv_reads_back
    (p : Profile) {content : Bytes} {child : Child}
    (hcontent : content = p.text ∨ content ++ [Byte.lf] = p.text)
    (hfirst : child.triedEnv_ = false) :
    ∃ env,
      (readEnv_ (some content)).run child =
        .ok () { child with env_ := env, triedEnv_ := true } ∧
      (∀ name value, .assignment name value ∈ p.lines → name ∉ child.env_ →
        env.lookup name = some value) ∧
      (∀ name value, child.env_.lookup name = some value → env.lookup name = some value) ∧
      (∀ name ∈ env, name ∈ child.env_ ∨ ∃ value, .assignment name value ∈ p.lines) ∧
      ∀ profenv later,
        (readEnv_ profenv).run { child with env_ := later, triedEnv_ := true } =
          .ok () { child with env_ := later, triedEnv_ := true } := by
  have hlines := readLines_text p.wellFormed { child with triedEnv_ := true }
  rw [← getlines_text p.wellFormed] at hlines
  refine ⟨insertAll child.env_ (p.lines.filterMap ProfileLine.entry?),
    (readEnv_run hfirst content).trans ?_, ?_, ?_, ?_, fun profenv later => rfl⟩
  · rcases hcontent with rfl | hcontent
    · exact hlines
    · rw [← readLines_append_lf, hcontent]
      exact hlines
  · intro name value hline hnew
    rw [lookup_insertAll, AList.lookup_eq_none.mpr hnew, Option.none_or]
    exact List.mem_dlookup p.distinct (mem_entries.mpr hline)
  · intro name value hlookup
    rw [lookup_insertAll, hlookup, Option.some_or]
  · intro name hname
    rw [← AList.lookup_isSome, lookup_insertAll, Option.isSome_or, Bool.or_eq_true,
      AList.lookup_isSome] at hname
    refine hname.imp id fun hsome => ?_
    obtain ⟨value, hvalue⟩ := Option.isSome_iff_exists.mp hsome
    exact ⟨value, mem_entries.mp (List.of_mem_dlookup hvalue)⟩

/-- A profile with a comment and two variables, one of which is there already. -/
theorem Profile.readEnv_reads_back_two :
    ∃ env,
      (readEnv_ (some (literal "# a\nexport A='1'\n\nexport B='='"))).run
          { env_ := AList.singleton (literal "A") (literal "2") } =
        .ok () { env_ := env, triedEnv_ := true } ∧
      env.lookup (literal "A") = some (literal "2") ∧
      env.lookup (literal "B") = some (literal "=") := by
  obtain ⟨env, hrun, hnew, hkept, -⟩ :=
    @Profile.readEnv_reads_back
      { lines := [.comment (literal " a"), .assignment (literal "A") (literal "1"), .empty,
          .assignment (literal "B") (literal "=")]
        wellFormed := by decide
        distinct := show (List.keys _).Nodup by decide }
      (literal "# a\nexport A='1'\n\nexport B='='")
      { env_ := AList.singleton (literal "A") (literal "2") }
      (.inr (by decide)) rfl
  exact ⟨env, hrun, hkept _ _ (by decide), hnew _ _ (by decide) (by decide)⟩

end Child

end Bren
end Brenlib
