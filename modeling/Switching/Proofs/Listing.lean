/-
A listing holds all that it lists.

Beside its name the listing shows of a function the expression that was typed, less its
blanks, and neither the statement nor the two sets.  Nothing else is needed: blanks were
never read, so the shown expression compiles to the very definition it is shown of.  Read
line by line, with each line as a request to store what it shows, the listing makes any
session hold what the listed one holds.

That it can be read line by line is because an expression without blanks ends no line, and
that nothing gets lost because the listing asks for every letter of the alphabet in turn.
-/
import Switching.Proofs.History
import Switching.Proofs.Joining
import Switching.Proofs.Printing

namespace Switching

/-! ### The lines of a listing -/

/-- What stands behind the first arrow of a line. -/
def Text.behindArrow : List Char → Option (List Char)
  | ' ' :: '-' :: '>' :: ' ' :: rest => some rest
  | _ :: rest => behindArrow rest
  | [] => none

/-- The request to store what a line of a listing shows: the first character is the name and
what stands behind the arrow is the expression. -/
def Request.ofEntry? (line : List Char) : Option Request :=
  match line with
  | [] => none
  | name :: _ => (Text.behindArrow line).map fun e => .define name (String.ofList e)

theorem Letter.not_break (l : Letter) : l.char ≠ '\n' ∧ l.char ≠ '\r' :=
  ⟨l.char_ne (by decide), l.char_ne (by decide)⟩

theorem Letter.unbroken_toText (l : Letter) : Text.Unbroken l.toText :=
  Text.unbroken_toString l.not_break

namespace Definition

/-- The line of a listing that shows a definition. -/
def entry (d : Definition) : String :=
  d.name.toText ++ " -> " ++ d.expression

/-- The request to store a definition once more. -/
def request (d : Definition) : Request :=
  .define d.name.char d.expression

variable {d : Definition} {c : Char} {text : String}

/-- **What is shown of a definition compiles to it.** -/
theorem compile_expression (h : compile c text = .ok d) :
    compile d.name.char d.expression = .ok d := by
  obtain ⟨-, hscan, hexpression, hlisted⟩ := compile_eq_ok_iff.mp h
  have hstrip : Text.strip d.expression.toList = Text.strip text.toList := by
    rw [Text.strip_eq_self (not_blank_of_compile h), hexpression, String.toList_ofList]
  rw [Statement.scan, ← hstrip] at hscan
  rw [← hstrip] at hexpression
  exact compile_eq_ok_iff.mpr ⟨rfl, hscan, hexpression, hlisted⟩

theorem toList_entry (d : Definition) :
    d.entry.toList = d.name.char :: ' ' :: '-' :: '>' :: ' ' :: d.expression.toList := by
  simp [entry, Letter.toText]

theorem ofEntry?_entry (d : Definition) : Request.ofEntry? d.entry.toList = some d.request := by
  have hname : d.name.char ≠ ' ' := by
    intro hblank
    exact absurd d.name.isBlank_char (by rw [hblank]; decide)
  have harrow : Text.behindArrow d.entry.toList = some d.expression.toList := by
    rw [toList_entry, Text.behindArrow, Text.behindArrow]
    intro _ hspace
    exact absurd hspace hname
  rw [toList_entry] at harrow ⊢
  rw [Request.ofEntry?, harrow, Option.map_some, String.ofList_toList, request]

theorem whole_entry (h : compile c text = .ok d) : Text.Whole d.entry := by
  have hname : Text.Unbroken d.name.toText := d.name.unbroken_toText
  have hexpression := Text.unbroken_of_not_blank (not_blank_of_compile h)
  have harrow : Text.Unbroken " -> " := by decide
  exact .of_cons ((hname.append harrow).append hexpression) d.toList_entry

end Definition

namespace Registry

variable {r : Registry}

/-- Storing what is stored under some letters in another registry takes it over there. -/
theorem find?_foldl_define (hr : r.Compiled) (letters : List Letter) (start : Registry)
    (l : Letter) : ((letters.filterMap r.find?).foldl define start).find? l =
      if l ∈ letters then (r.find? l).or (start.find? l) else start.find? l := by
  induction letters generalizing start with
  | nil => simp
  | cons k letters ih =>
      cases hk : r.find? k with
      | none =>
          rw [List.filterMap_cons_none hk, ih]
          by_cases hl : l = k
          · subst hl
            simp [hk]
          · simp [hl]
      | some d =>
          have hname : d.name = k := hr.name_eq hk
          rw [List.filterMap_cons_some hk, List.foldl_cons, ih, find?_define, hname]
          by_cases hl : l = k
          · subst hl
            simp [hk]
          · simp [hl]

/-- **A registry is what storing all that it lists makes of the empty one.** -/
theorem foldl_define_toList (hr : r.Compiled) : r.toList.foldl define ∅ = r := by
  ext1
  funext l
  rw [toList, find?_foldl_define hr, if_pos l.mem_all, find?_empty, Option.or_none]

/-- The letters that something is stored under, in ascending order. -/
def names (r : Registry) : List Letter :=
  Letter.all.filter fun l => (r.find? l).isSome

theorem mem_names {l : Letter} : l ∈ r.names ↔ ∃ d, r.find? l = some d := by
  simp [names, l.mem_all, Option.isSome_iff_exists]

theorem names_ascending (r : Registry) :
    r.names.Pairwise fun k l => k.char.toNat < l.char.toNat :=
  Letter.all_ascending.filter _

/-- The listing goes by the names. -/
theorem map_name_toList (hr : r.Compiled) : r.toList.map Definition.name = r.names := by
  unfold toList names
  induction Letter.all with
  | nil => rfl
  | cons l letters ih =>
      cases hl : r.find? l with
      | none => simp [hl, ih]
      | some d => simp [hl, ih, hr.name_eq hl]

end Registry

namespace Session

variable {s : Session} {ds : List Definition}

theorem listing_eq (s : Session) : s.listing =
    Text.stacked ("Displaying all functions" :: s.registry.toList.map Definition.entry) :=
  rfl

theorem whole_of_mem_listing (hr : s.registry.Compiled) {line : String}
    (h : line ∈ "Displaying all functions" :: s.registry.toList.map Definition.entry) :
    Text.Whole line := by
  rcases List.mem_cons.mp h with rfl | h
  · exact ⟨by decide, by decide⟩
  · obtain ⟨d, hd, rfl⟩ := List.mem_map.mp h
    obtain ⟨l, hstored⟩ := Registry.mem_toList.mp hd
    obtain ⟨text, htext⟩ := hr l d hstored
    exact Definition.whole_entry htext

/-- **The listing of a session that holds compiled functions is read line by line.** -/
theorem lines_listing (hr : s.registry.Compiled) : Text.lines s.listing.toList =
    "Displaying all functions".toList :: s.registry.toList.map fun d => d.entry.toList := by
  rw [listing_eq, Text.lines_stacked fun _ => whole_of_mem_listing hr, List.map_cons,
    List.map_map]
  rfl

/-! ### Storing what is listed -/

/-- A definition that is asked to be stored once more is stored. -/
theorem after_request (s : Session) {d : Definition}
    (h : Definition.compile d.name.char d.expression = .ok d) :
    s.after d.request = { s with registry := s.registry.define d } ∧
      (s.exchange d.request).Succeeds := by
  have hchange : d.request.change? = some (.store d.name.char d.expression) := rfl
  have hout := s.perform_change hchange
  rw [changed, h, Except.map] at hout
  cases hrun : (s.perform d.request).outcome with
  | error e =>
      rw [hrun] at hout
      cases hout
  | ok out =>
      obtain ⟨next, reply⟩ := out
      rw [hrun] at hout
      cases hout
      exact after_of_ok hrun

theorem run_requests (s : Session)
    (h : ∀ d ∈ ds, Definition.compile d.name.char d.expression = .ok d) :
    s.run (ds.map Definition.request) =
        { s with registry := ds.foldl Registry.define s.registry } ∧
      ∀ ex ∈ s.log (ds.map Definition.request), ex.Succeeds := by
  induction ds generalizing s with
  | nil => exact ⟨rfl, by simp [log]⟩
  | cons d ds ih =>
      obtain ⟨hafter, hsucceeds⟩ := s.after_request (h d (by simp))
      obtain ⟨hrun, hlog⟩ := ih (s.after d.request) fun d' hd' => h d' (by simp [hd'])
      constructor
      · rw [List.map_cons, run, List.foldl_cons, ← run, hrun, hafter, List.foldl_cons]
      · rw [List.map_cons, log]
        simp only [List.mem_cons, forall_eq_or_imp]
        exact ⟨hsucceeds, hlog⟩

/-- **A listing is a faithful dump.**  It is always given; below its head it has one line for
each function that is stored, in ascending order of their names, and if what the lines show
is stored in a new session, line by line, then nothing is refused and that session holds what
the listed one holds. -/
theorem listing_restores (h : s.Reachable) (expand : Bool) (config : Config) :
    ∃ text lines requests, (s.view .all expand).outcome = .ok text ∧
      Text.lines text.toList = "Displaying all functions".toList :: lines ∧
      lines.map List.head? = s.registry.names.map (fun l => some l.char) ∧
      s.registry.names.Pairwise (fun k l => k.char.toNat < l.char.toNat) ∧
      (∀ l, l ∈ s.registry.names ↔ ∃ d, s.registry.find? l = some d) ∧
      lines.map Request.ofEntry? = requests.map some ∧
      (∀ ex ∈ (new config).log requests, ex.Succeeds) ∧
      ((new config).run requests).registry = s.registry := by
  have hr := h.compiled
  have hlisted : ∀ d ∈ s.registry.toList,
      Definition.compile d.name.char d.expression = .ok d := by
    intro d hd
    obtain ⟨l, hstored⟩ := Registry.mem_toList.mp hd
    obtain ⟨text, htext⟩ := hr l d hstored
    exact Definition.compile_expression htext
  obtain ⟨hrun, hlog⟩ := run_requests (new config) hlisted
  refine ⟨s.listing, _, s.registry.toList.map Definition.request, rfl, lines_listing hr, ?_,
    s.registry.names_ascending, fun l => Registry.mem_names, ?_, hlog, ?_⟩
  · rw [← Registry.map_name_toList hr, List.map_map, List.map_map]
    exact List.map_congr_left fun d _ => by simp [Definition.toList_entry]
  · rw [List.map_map, List.map_map]
    exact List.map_congr_left fun d _ => d.ofEntry?_entry
  · rw [hrun]
    exact Registry.foldl_define_toList hr

/-- Two functions, the one with blanks in its text and the other with nothing in it. -/
def blanks : List Request :=
  [.define 'g' "a * $\tf", .define 'f' " "]

/-- What is listed of the two is `f -> ` and `g -> a*$f`, and stores them again. -/
theorem listing_restores_blanks : ((new {}).run blanks).Reachable ∧
    (((new {}).run blanks).view .all true).outcome =
      .ok "Displaying all functions\nf -> \ng -> a*$f" ∧
    ∃ lines requests, Text.lines "Displaying all functions\nf -> \ng -> a*$f".toList =
        "Displaying all functions".toList :: lines ∧
      lines.map Request.ofEntry? = requests.map some ∧
      ((new {}).run requests).registry = ((new {}).run blanks).registry := by
  have hreach : ((new {}).run blanks).Reachable := ⟨{}, blanks, rfl⟩
  have hview : (((new {}).run blanks).view .all true).outcome =
      .ok "Displaying all functions\nf -> \ng -> a*$f" := rfl
  obtain ⟨text, lines, requests, htext, hlines, -, -, -, hrequests, -, hrun⟩ :=
    listing_restores hreach true {}
  rw [hview, Except.ok.injEq] at htext
  subst htext
  exact ⟨hreach, hview, lines, requests, hlines, hrequests, hrun⟩

end Session

end Switching
