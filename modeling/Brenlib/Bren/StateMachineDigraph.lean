import Brenlib.Bren.StateMachineNames
import Brenlib.Bren.StdNumbers

/-!
# The graph that `digraph()` writes

`digraph()` writes the registered transitions in the language of Graphviz.  `readDigraph`
reads such a text: a name is what stands up to the next quote, but a quote behind a
backslash belongs to the name.

**Result.**  `digraph_reads_back`: as long as no name has a quote or a backslash, what is read
from the text are the names of the start state and of the end state, and of every registered
transition once.
-/

namespace Brenlib
namespace Bren
namespace StateMachine

open TransitionSystem

section Text

/-- The line of a transition. -/
def edgeLine (from_i to_i event_i : Bytes) : Bytes :=
  literal "\t\"" ++ (from_i ++ (literal "\" -> \"" ++ (to_i ++
    (literal "\" [ label=\"" ++ (event_i ++ literal "\" ];\n")))))

/-- The text up to the name of the end state. -/
def digraphHead : Bytes :=
  literal "digraph \x7b\n" ++
    literal "\t\"__start__\" [style=\"filled\", label=\"\", fillcolor=\"black\", " ++
    literal "shape=\"circle\", fixedsize=true, width=0.2];\n" ++
    literal "\t\""

/-- The text between the names of the end state and of the start state. -/
def digraphMid : Bytes :=
  literal "\" [peripheries=2];\n" ++ literal "\t\"__start__\" -> \""

variable {STATE EVENT HANDLER : Type}
variable [DecidableEq STATE] [DecidableEq EVENT]
variable [EnumClass STATE] [EnumClass EVENT]

/-- `digraph()`. -/
def digraph (m : StateMachine STATE EVENT HANDLER) : Bytes :=
  digraphHead ++ (m.stateName m.end_ ++ (digraphMid ++ (m.stateName m.start_ ++
    (literal "\";\n" ++
      ((m.trans_.entries.flatMap fun trs => trs.2.entries.flatMap fun tgt =>
        edgeLine (m.stateName trs.1) (m.stateName tgt.2.target) (m.eventName tgt.1)) ++
      literal "\x7d\n")))))

end Text

section Reading

/-- A name up to its closing quote, and the text from this quote on.  Behind a backslash, a
quote belongs to the name, without the backslash, and a line end to neither; in front of
another byte the backslash is one like the others. -/
def readName : Bytes → Bytes × Bytes
  | [] => ([], [])
  | [b] => if b = Byte.quote then ([], [b]) else ([b], [])
  | b :: d :: text =>
      if b = Byte.quote then ([], b :: d :: text)
      else if b = Byte.backslash then
        let (name, rest) := readName text
        if d = Byte.quote then (d :: name, rest)
        else if d = Byte.lf then (name, rest)
        else (b :: d :: name, rest)
      else
        let (name, rest) := readName (d :: text)
        (b :: name, rest)

/-- The name that stands behind `skip` bytes, and the text from its closing quote on. -/
def quotedName (skip : Nat) (text : Bytes) : Bytes × Bytes :=
  readName (text.drop skip)

/-- A name of which every byte stands for itself between quotes. -/
def Verbatim (name : Bytes) : Prop :=
  Byte.quote ∉ name ∧ Byte.backslash ∉ name

instance (name : Bytes) : Decidable (Verbatim name) :=
  inferInstanceAs (Decidable (_ ∧ _))

/-- Read the lines of transitions, at most `n` of them: from, to, event. -/
def readEdges : Nat → Bytes → List (Bytes × Bytes × Bytes)
  | 0, _ => []
  | n + 1, text =>
      if text.head? = some 0x09 then
        let (from_i, text) := quotedName (literal "\t\"").length text
        let (to_i, text) := quotedName (literal "\" -> \"").length text
        let (event_i, text) := quotedName (literal "\" [ label=\"").length text
        (from_i, to_i, event_i) :: readEdges n (text.drop (literal "\" ];\n").length)
      else []

/-- Read a graph: the start state, the end state and the transitions. -/
def readDigraph (text : Bytes) : Bytes × Bytes × List (Bytes × Bytes × Bytes) :=
  let (end_i, text) := quotedName digraphHead.length text
  let (start_i, text) := quotedName digraphMid.length text
  (start_i, end_i, readEdges text.length (text.drop (literal "\";\n").length))

variable {name before after : Bytes}

theorem readName_append
    (hname : Verbatim name)
    (hafter : after.head? = some Byte.quote) :
    readName (name ++ after) = (name, after) := by
  obtain ⟨rest, rfl⟩ := List.head?_eq_some_iff.mp hafter
  induction name with
  | nil =>
      cases rest with
      | nil => exact if_pos rfl
      | cons d rest => exact if_pos rfl
  | cons b name ih =>
      obtain ⟨hquote, hbackslash⟩ := hname
      rw [List.mem_cons, not_or] at hquote hbackslash
      have hrest := ih ⟨hquote.2, hbackslash.2⟩
      rw [List.cons_append]
      cases hcons : name ++ Byte.quote :: rest with
      | nil => simp at hcons
      | cons d text =>
          rw [hcons] at hrest
          rw [readName, if_neg (Ne.symm hquote.1), if_neg (Ne.symm hbackslash.1), hrest]

theorem quotedName_append
    (hname : Verbatim name)
    (hafter : after.head? = some Byte.quote) :
    quotedName before.length (before ++ (name ++ after)) = (name, after) := by
  rw [quotedName, List.drop_left, readName_append hname hafter]

/-- The lines of several transitions. -/
def edgeLines (edges : List (Bytes × Bytes × Bytes)) : Bytes :=
  edges.flatMap fun edge => edgeLine edge.1 edge.2.1 edge.2.2

/-- Every byte of the names stands for itself. -/
def VerbatimEdge (edge : Bytes × Bytes × Bytes) : Prop :=
  Verbatim edge.1 ∧ Verbatim edge.2.1 ∧ Verbatim edge.2.2

theorem readEdges_cons
    {from_i to_i event_i : Bytes}
    (h : VerbatimEdge (from_i, to_i, event_i))
    (n : Nat) (text : Bytes) :
    readEdges (n + 1) (edgeLine from_i to_i event_i ++ text) =
      (from_i, to_i, event_i) :: readEdges n text := by
  obtain ⟨hfrom, hto, hevent⟩ := h
  have hhead : (edgeLine from_i to_i event_i ++ text).head? = some 0x09 := rfl
  rw [readEdges, if_pos hhead]
  simp only [edgeLine, List.append_assoc]
  rw [quotedName_append hfrom rfl]
  simp only
  rw [quotedName_append hto rfl]
  simp only
  rw [quotedName_append hevent rfl]
  simp only
  rw [List.drop_left]

/-- All lines are read, in their order. -/
theorem readEdges_edgeLines
    {edges : List (Bytes × Bytes × Bytes)}
    (h : ∀ edge ∈ edges, VerbatimEdge edge)
    {text : Bytes} (htext : text.head? ≠ some 0x09)
    {n : Nat} (hn : edges.length ≤ n) :
    readEdges n (edgeLines edges ++ text) = edges := by
  induction edges generalizing n with
  | nil =>
      cases n with
      | zero => rfl
      | succ n => exact if_neg htext
  | cons edge edges ih =>
      obtain ⟨n, rfl⟩ := Nat.exists_eq_succ_of_ne_zero (Nat.ne_zero_of_lt hn)
      rw [edgeLines, List.flatMap_cons, List.append_assoc,
        readEdges_cons (h edge List.mem_cons_self)]
      refine congrArg (edge :: ·) ?_
      exact ih (fun e he => h e (List.mem_cons_of_mem edge he)) (Nat.le_of_succ_le_succ hn)

theorem length_le_edgeLines
    (edges : List (Bytes × Bytes × Bytes)) :
    edges.length ≤ (edgeLines edges).length := by
  induction edges with
  | nil =>
      exact Nat.zero_le _
  | cons edge edges ih =>
      rw [edgeLines, List.flatMap_cons, List.length_append, List.length_cons, edgeLine,
        List.length_append]
      have hpos : 1 ≤ (literal "\t\"").length := by decide
      change edges.length ≤ (edges.flatMap _).length at ih
      omega

end Reading

section Arcs

variable {STATE EVENT HANDLER : Type}

/-- The registered transitions: from, event, to. -/
def arcs (m : StateMachine STATE EVENT HANDLER) : List (STATE × EVENT × STATE) :=
  m.trans_.entries.flatMap fun trs => trs.2.entries.map fun tgt =>
    (trs.1, tgt.1, tgt.2.target)

theorem arcs_nodup
    (m : StateMachine STATE EVENT HANDLER) :
    (m.arcs.map fun arc => (arc.1, arc.2.1)).Nodup := by
  rw [arcs, List.map_flatMap, List.nodup_flatMap]
  constructor
  · intro trs _
    rw [List.map_map]
    have hkeys : (trs.2.entries.map Sigma.fst).Nodup := trs.2.nodupKeys
    refine List.Nodup.of_map Prod.snd ?_
    rw [List.map_map]
    exact hkeys
  · have hkeys : (m.trans_.entries.map Sigma.fst).Nodup := m.trans_.nodupKeys
    refine (List.pairwise_map.mp hkeys).imp fun hne => ?_
    intro pair hpair hpair'
    simp only [List.map_map, List.mem_map, Function.comp_apply] at hpair hpair'
    obtain ⟨tgt, -, rfl⟩ := hpair
    obtain ⟨tgt', -, heq⟩ := hpair'
    exact hne (congrArg Prod.fst heq).symm

variable [DecidableEq STATE] [DecidableEq EVENT]

theorem mem_arcs_iff
    (m : StateMachine STATE EVENT HANDLER) (from_i : STATE) (event_i : EVENT) (to_i : STATE) :
    (from_i, event_i, to_i) ∈ m.arcs ↔
      (m.edge from_i event_i).map TransTarget.target = some to_i := by
  simp only [arcs, List.mem_flatMap, List.mem_map, Prod.mk.injEq, edge, Option.map_eq_some_iff,
    Option.bind_eq_some_iff]
  constructor
  · rintro ⟨⟨s, eventMap⟩, hs, ⟨e, tgt⟩, he, rfl, rfl, rfl⟩
    exact ⟨tgt, ⟨eventMap, AList.mem_lookup_iff.mpr hs, AList.mem_lookup_iff.mpr he⟩, rfl⟩
  · rintro ⟨tgt, ⟨eventMap, hs, he⟩, rfl⟩
    exact ⟨⟨from_i, eventMap⟩, AList.mem_lookup_iff.mp hs, ⟨event_i, tgt⟩,
      AList.mem_lookup_iff.mp he, rfl, rfl, rfl⟩

end Arcs

section Names

/-- Every byte of the names stands for itself. -/
def VerbatimNames {K : Type} [DecidableEq K] (names : UnorderedMap K Bytes) : Prop :=
  ∀ k x, names.lookup k = some x → Verbatim x

theorem not_mem_decimal
    {b : Byte} (hdigit : ¬ isDigit b) (hminus : b ≠ 0x2D)
    (n : Int) :
    b ∉ decimal n := by
  have hnat (k : Nat) : b ∉ decimal k := fun h => hdigit (isDigit_of_mem_decimal h)
  obtain ⟨k, rfl | rfl⟩ := n.eq_nat_or_neg
  · exact hnat k
  · cases k with
    | zero => exact hnat 0
    | succ k =>
        rw [decimal_neg (Nat.succ_pos k), List.mem_cons, not_or]
        exact ⟨hminus, hnat (k + 1)⟩

theorem verbatim_decimal
    (n : Int) :
    Verbatim (decimal n) :=
  ⟨not_mem_decimal (by decide) (by decide) n, not_mem_decimal (by decide) (by decide) n⟩

theorem VerbatimNames.nameIn
    {K : Type} [DecidableEq K] [EnumClass K] {names : UnorderedMap K Bytes}
    (h : VerbatimNames names)
    (key : K) :
    Verbatim (nameIn names key) := by
  rw [StateMachine.nameIn]
  cases hname : names.lookup key with
  | none => exact verbatim_decimal _
  | some x => exact h key x hname

theorem VerbatimNames.insert
    {K : Type} [DecidableEq K] {names : UnorderedMap K Bytes} {key : K} {name_i : Bytes}
    (h : VerbatimNames names)
    (hname : Verbatim name_i) :
    VerbatimNames (names.insert key (shorten_ name_i)) := by
  intro k x hk
  rcases lookup_insert_cases hk with ⟨-, rfl⟩ | ⟨-, hold⟩
  · rw [shorten_]
    split
    · exact hname
    · exact ⟨fun hmem => hname.1 (List.mem_of_mem_drop hmem),
        fun hmem => hname.2 (List.mem_of_mem_drop hmem)⟩
  · exact h k x hold

variable {STATE EVENT HANDLER : Type}
variable [DecidableEq STATE] [DecidableEq EVENT]
variable [EnumClass STATE] [EnumClass EVENT]
variable {m m' : StateMachine STATE EVENT HANDLER}

/-- A call that gives no name with a quote or a backslash. -/
def Request.Plain : Request STATE EVENT HANDLER → Prop
  | .nameEvent _ name_i => Verbatim name_i
  | .nameState _ name_i => Verbatim name_i
  | _ => True

/-- Between two requests the mutex is free, and every byte of the names stands for itself. -/
structure Printable (m : StateMachine STATE EVENT HANDLER) : Prop where
  free : m.mux_ = false
  events : VerbatimNames m.events_
  states : VerbatimNames m.states_

theorem Printable.step
    {request : Request STATE EVENT HANDLER}
    (h : Printable m)
    (hplain : request.Plain)
    (hstep : Requests m request m') :
    Printable m' := by
  have hcases := name_cases h.free request
  have hfree := hstep.free h.free
  rw [Requests] at hstep
  generalize request.method.run m = r at hcases hstep
  subst hstep
  cases hcases with
  | eventRefused => exact h
  | eventNamed event_i name_i => exact ⟨hfree, h.events.insert hplain, h.states⟩
  | stateRefused => exact h
  | stateNamed state_i name_i => exact ⟨hfree, h.events, h.states.insert hplain⟩
  | aside request r hcollides hkeeps =>
      obtain ⟨hevents, hstates⟩ := registered_eq hkeeps
      exact ⟨hfree, hevents ▸ h.events, hstates ▸ h.states⟩

omit [EnumClass STATE] [EnumClass EVENT] in
theorem printable_init
    (start_i end_i : STATE) :
    Printable (init start_i end_i : StateMachine STATE EVENT HANDLER) where
  free := rfl
  events := fun _ _ h => (Option.some_ne_none _ h.symm).elim
  states := fun _ _ h => (Option.some_ne_none _ h.symm).elim

/-- The names of a transition, as they stand in its line. -/
def arcNames (m : StateMachine STATE EVENT HANDLER) (arc : STATE × EVENT × STATE) :
    Bytes × Bytes × Bytes :=
  (m.stateName arc.1, m.stateName arc.2.2, m.eventName arc.2.1)

theorem digraph_eq
    (m : StateMachine STATE EVENT HANDLER) :
    m.digraph =
      digraphHead ++ (m.stateName m.end_ ++ (digraphMid ++ (m.stateName m.start_ ++
        (literal "\";\n" ++ (edgeLines (m.arcs.map m.arcNames) ++ literal "\x7d\n"))))) := by
  have hlines : edgeLines (m.arcs.map m.arcNames) =
      m.trans_.entries.flatMap fun trs => trs.2.entries.flatMap fun tgt =>
        edgeLine (m.stateName trs.1) (m.stateName tgt.2.target) (m.eventName tgt.1) := by
    simp only [edgeLines, arcs, arcNames, List.flatMap_map, List.flatMap_assoc]
  rw [hlines, digraph]

/-- **The text of `digraph()` can be read back**: it has every registered transition once. -/
theorem digraph_reads_back
    {start_i end_i : STATE} {requests : List (Request STATE EVENT HANDLER)}
    (hrun : Run Requests (init start_i end_i) requests m)
    (hplain : ∀ request ∈ requests, request.Plain) :
    ∃ arcs : List (STATE × EVENT × STATE),
      (arcs.map fun arc => (arc.1, arc.2.1)).Nodup ∧
      (∀ from_i event_i to_i, (from_i, event_i, to_i) ∈ arcs ↔
        (m.edge from_i event_i).map TransTarget.target = some to_i) ∧
      readDigraph m.digraph =
        (m.stateName m.start_, m.stateName m.end_, arcs.map m.arcNames) := by
  have hguarded : Run (Guarded (fun _ request _ => request.Plain) Requests)
      (init start_i end_i) requests m :=
    hrun.guarded fun request hrequest _ _ => hplain request hrequest
  have hprintable : Printable m :=
    hguarded.invariant Printable (fun h hstep => h.step hstep.1 hstep.2)
      (printable_init start_i end_i)
  have hstates (s : STATE) : Verbatim (m.stateName s) := hprintable.states.nameIn s
  have hevents (e : EVENT) : Verbatim (m.eventName e) := hprintable.events.nameIn e
  have hverbatim : ∀ edge ∈ m.arcs.map m.arcNames, VerbatimEdge edge := by
    intro edge hedge
    obtain ⟨arc, -, rfl⟩ := List.mem_map.mp hedge
    exact ⟨hstates arc.1, hstates arc.2.2, hevents arc.2.1⟩
  refine ⟨m.arcs, m.arcs_nodup, m.mem_arcs_iff, ?_⟩
  rw [digraph_eq, readDigraph, quotedName_append (hstates m.end_) rfl]
  simp only
  rw [quotedName_append (hstates m.start_) rfl]
  simp only
  rw [List.drop_left, readEdges_edgeLines hverbatim (by decide) ?_]
  rw [List.length_append, List.length_append]
  have hlength := length_le_edgeLines (m.arcs.map m.arcNames)
  omega

end Names

/-- A named state and one transition. -/
theorem digraph_reads_back_quit :
    ∃ m : StateMachine CheckState CheckEvent Unit,
      Run Requests (init .Start .End)
        [.nameState .Start (literal "Door::Start"), .transition .Start .Quit .End none none] m ∧
      m.edge .Start .Quit = some ⟨.End, none, none⟩ ∧
      ∃ arcs : List (CheckState × CheckEvent × CheckState),
        (arcs.map fun arc => (arc.1, arc.2.1)).Nodup ∧
        (∀ from_i event_i to_i, (from_i, event_i, to_i) ∈ arcs ↔
          (m.edge from_i event_i).map TransTarget.target = some to_i) ∧
        readDigraph m.digraph =
          (m.stateName m.start_, m.stateName m.end_, arcs.map m.arcNames) := by
  refine ⟨_, run_foldl _ _ _, rfl, digraph_reads_back (run_foldl _ _ _) ?_⟩
  rw [List.forall_mem_cons, List.forall_mem_singleton]
  exact ⟨show Verbatim (literal "Door::Start") by decide, trivial⟩

end StateMachine
end Bren
end Brenlib
