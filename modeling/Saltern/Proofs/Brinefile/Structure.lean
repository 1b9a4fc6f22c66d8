import Saltern.Proofs.Brinefile.PrintedEntries
import Saltern.Proofs.Brinefile.Reformat

/-!
# What formatting leaves in place

Whether or not a Brinefile describes a document, formatting moves none of its lines to another
section and turns none into a marker, a comment or a blank line. Comments and plain entries keep
their texts; items and settings are read as before. Only items that say nothing may be lost.
-/

namespace Saltern

open Text

/-! ## Reading a printed line -/

namespace LineEnding

variable {e : LineEnding}

/-- A carriage return that is taken for a part of the ending was blank anyway. -/
@[simp] theorem trim_reread (e : LineEnding) (t : Text) : trim (e.reread t) = trim t := by
  cases e with
  | crlf => rfl
  | lf =>
      by_cases h : t.getLast? = some '\r'
      · conv => rhs; rw [← append_return_of_getLast? h]
        exact (trim_append_append (a := []) nofun (List.forall_mem_singleton.mpr rfl)).symm
      · rw [reread_of_ne h]

theorem head?_reread_eq_percent_iff (t : Text) : (e.reread t).head? = some '%' ↔ t.head? = some '%' := by
  obtain ⟨r, hr⟩ := e.reread_isPrefix t
  cases hread : e.reread t with
  | cons c u => rw [← hr, hread, List.cons_append, List.head?_cons, List.head?_cons]
  | nil =>
      -- All that can be left out is blank.
      refine iff_of_false nofun fun h ↦ LineKind.trim_ne_nil_of_percent h ?_
      rw [← e.trim_reread t, hread, trim_nil]

@[simp] theorem ofRaw_reread (e : LineEnding) (t : Text) : LineKind.ofRaw (e.reread t) = LineKind.ofRaw t :=
  LineKind.ofRaw_congr (e.trim_reread t) (head?_reread_eq_percent_iff t)

/-- The next reading finds the printed lines of every kind. -/
@[simp] theorem contents_map_reread (kind : LineKind) (e : LineEnding) (raws : List Text) :
    kind.contents (raws.map e.reread) = kind.contents raws := by
  conv => rhs; rw [← List.map_id raws]
  exact LineKind.contents_map fun t _ _ ↦ ⟨e.ofRaw_reread t, e.trim_reread t⟩

end LineEnding

/-! ## What items and settings say -/

namespace ItemLine

/-- What an item line names, if anything. -/
def named : ItemLine → Text
  | .present target _ | .absent target | .conflict target _ => target

/-- The value that an item line gives. -/
def given? : ItemLine → Option Text
  | .present _ value => value
  | .absent _ => none
  | .conflict _ value => some value

/-- Whether an item line names something or gives a value. -/
def Says (l : ItemLine) : Prop := l.named ≠ [] ∨ l.given? ≠ none

instance : DecidablePred Says := fun l ↦ inferInstanceAs (Decidable (l.named ≠ [] ∨ l.given? ≠ none))

end ItemLine

/-- A line of kernel settings as it is read: a setting or, where there is none, the text of the
line. -/
def Setting.read (t : Text) : Setting ⊕ Text :=
  match Setting.ofText? t with
  | some s => .inl s
  | none => .inr t

/-- The item lines of a section, but for those that say nothing. -/
def Section.saidItems (s : Section) : List ItemLine := (s.values.map ItemLine.ofText).filter (·.Says)

/-- A section that has become another without losing what it says: comments, plain entries, items
and settings. -/
structure Section.Keeps (s s' : Section) : Prop where
  keyword : s'.keyword = s.keyword
  comments : s'.comments = s.comments
  plain : s.keyword.holdsItems = false → s.keyword ≠ .symlinks → s.keyword ≠ .sysctl → s'.values = s.values
  items : s.keyword.holdsItems = true → s'.saidItems = s.saidItems
  settings : s.keyword = .sysctl → s'.values.map Setting.read = s.values.map Setting.read

namespace Brinefile

/-- The comments before the first marker, one value a line. -/
def comments (b : Brinefile) : List Text := LineKind.comment.contents (b.preamble.map Line.raw)

/-- The lines before the first marker that are neither blank nor comments. -/
def values (b : Brinefile) : List Text := LineKind.entry.contents (b.preamble.map Line.raw)

/-- A Brinefile that has become another without losing a line or moving one to another section. -/
structure Keeps (b b' : Brinefile) : Prop where
  comments : b'.comments = b.comments
  values : b'.values = b.values
  sections : List.Forall₂ Section.Keeps b.sections b'.sections

end Brinefile

/-! ## Sections -/

namespace Section

variable {s s' : Section} {e : LineEnding}

/-- What a section is read as once it is printed, under the ending that the lines were joined with. -/
structure IsReread (e : LineEnding) (s s' : Section) : Prop where
  plain : ∀ l ∈ s.lines, l.kind ≠ .marker
  keyword : s'.keyword = s.keyword
  raws : s'.raws = (s.printBody ++ [[]]).map e.reread

theorem contents_reread {kind : LineKind} (hkind : kind ≠ .blank) (h : s.IsReread e s') :
    kind.contents s'.raws = kind.contents s.printBody := by
  rw [h.raws, LineEnding.contents_map_reread, LineKind.contents_append, LineKind.contents_singleton_nil hkind,
    List.append_nil]

/-- A section that was printed and read again has its entries, respelled, but for those printed as
nothing. -/
theorem values_reread (h : s.IsReread e s') :
    s'.values = (s.values.map s.keyword.respellContent).filter (!·.isEmpty) := by
  rw [values_eq, contents_reread (by decide) h, entries_printBody h.plain]

/-- Outside items no entry is printed as nothing. -/
theorem values_reread_of_not_items (h : s.IsReread e s') (hk : s.keyword.holdsItems = false) :
    s'.values = s.values.map s.keyword.respellContent := by
  rw [values_reread h, filter_respellContent (by rw [hk]; nofun)]

/-- An item that is printed as nothing says nothing. -/
theorem saidItems_reread (h : s.IsReread e s') (hk : s.keyword.holdsItems = true) :
    s'.saidItems = s.saidItems := by
  rw [saidItems, saidItems, values_reread h]
  generalize s.values = vs
  induction vs with
  | nil => rfl
  | cons v vs ih =>
      have hline := Keyword.itemLine_respellContent hk v
      rw [List.map_cons, List.map_cons]
      by_cases hnil : s.keyword.respellContent v = []
      · have hsilent : ¬ (ItemLine.ofText v).Says := by
          rw [← hline, hnil]
          decide
        rw [List.filter_cons_of_neg (by simp [hnil]), List.filter_cons_of_neg (by simpa using hsilent), ih]
      · rw [List.filter_cons_of_pos (by simpa using hnil), List.map_cons, hline, List.filter_cons,
          List.filter_cons, ih]

theorem read_respellContent (v : Text) :
    Setting.read (Keyword.respellContent .sysctl v) = Setting.read v := by
  cases hs : Setting.ofText? v with
  | none => rw [Keyword.respellContent_of_no_setting hs]
  | some s => rw [Setting.read, Setting.read, Keyword.setting_respellContent hs, hs]

/-- A section keeps what it says when it is printed and read again. -/
theorem keeps_of_isReread (h : s.IsReread e s') : s.Keeps s' where
  keyword := h.keyword
  comments := by rw [comments, contents_reread (by decide) h, comments_printBody h.plain]
  plain := by
    intro hitems hlinks hsettings
    rw [values_reread_of_not_items h hitems]
    refine (List.map_congr_left fun v _ ↦ ?_).trans (List.map_id _)
    exact Keyword.respellContent_of_plain hitems hlinks hsettings v
  items := saidItems_reread h
  settings := by
    intro hk
    rw [values_reread_of_not_items h (by rw [hk]; rfl), List.map_map, hk]
    exact List.map_congr_left fun v _ ↦ read_respellContent v

end Section

/-! ## Brinefiles -/

namespace Brinefile

variable {b b' : Brinefile} {t : Text} {e : LineEnding}

/-- The sections that are read are the printed ones, one by one. -/
theorem IsReread.forall₂_sections (hb : ofText t = .ok b) (h : IsReread e b b') :
    List.Forall₂ (Section.IsReread e) b.sections b'.sections := by
  have hout := h.sections
  rw [printedOutlines, List.map_map] at hout
  rw [← List.forall₂_eq_eq_eq, List.forall₂_map_left_iff, List.forall₂_map_right_iff] at hout
  have hplain : ∀ s ∈ b.sections, ∀ l ∈ s.lines, l.kind ≠ .marker :=
    fun s hs l hl ↦ ((ofText_lines hb).2 s hs l hl).2
  exact ((List.forall₂_and_left _ _).mpr ⟨hplain, hout.flip⟩).imp
    fun _ _ hs ↦ ⟨hs.1, (Prod.mk.inj hs.2).1, (Prod.mk.inj hs.2).2⟩

theorem contents_lead {kind : LineKind} (hkind : kind ≠ .blank) (b : Brinefile) :
    kind.contents b.lead = kind.contents (b.preamble.map Line.unindented) := by
  rw [← LineKind.contents_trimEmptyEdges hkind, trimEmptyEdges_lead, printPreamble_eq,
    LineKind.contents_trimEmptyEdges hkind]

/-- The lines before the first marker keep their kinds and their contents. -/
theorem contents_preamble_reread {kind : LineKind} (hkind : kind ≠ .blank) (hb : ofText t = .ok b)
    (h : IsReread e b b') :
    kind.contents (b'.preamble.map Line.raw) = kind.contents (b.preamble.map Line.raw) := by
  rw [h.preamble, LineEnding.contents_map_reread, contents_lead hkind]
  exact LineKind.contents_map fun l hl _ ↦
    ⟨Line.kind_unindented ((ofText_lines hb).1 l hl).2, l.trim_unindented⟩

theorem keeps_of_isReread (hb : ofText t = .ok b) (h : IsReread e b b') : b.Keeps b' where
  comments := contents_preamble_reread (by decide) hb h
  values := contents_preamble_reread (by decide) hb h
  sections := (h.forall₂_sections hb).imp fun _ _ ↦ Section.keeps_of_isReread

/-- A text that can be cut into sections can be cut into the same ones once it is formatted, with
the same lines in each. -/
theorem ofText_format_keeps (preserveNewlines : Bool) (hb : ofText t = .ok b) :
    ∃ f b', format preserveNewlines t = .ok f ∧ ofText f.text = .ok b' ∧ b.Keeps b' := by
  obtain ⟨b', hb', hr⟩ := ofText_printed hb (ending preserveNewlines t)
  exact ⟨_, b', format_of_ok hb, hb', keeps_of_isReread hb hr⟩

/-- An indented percent sign stays an entry, and a removal with a value stays one. -/
theorem ofText_format_keeps_conflict :
    ∃ b f b', ofText "# c\n%Packages\n  %a \n- b = c\n%SYSCTL\n k = v \n" = .ok b ∧
      format false "# c\n%Packages\n  %a \n- b = c\n%SYSCTL\n k = v \n" = .ok f ∧
        ofText f.text = .ok b' ∧ b.Keeps b' := by
  obtain ⟨f, b', hf, hb', hkeeps⟩ :=
    ofText_format_keeps false (t := "# c\n%Packages\n  %a \n- b = c\n%SYSCTL\n k = v \n") rfl
  exact ⟨_, f, b', rfl, hf, hb', hkeeps⟩

end Brinefile

end Saltern
