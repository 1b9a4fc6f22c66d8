import Saltern.Proofs.Brinefile.PrintedEntries
import Saltern.Proofs.Document.Reading

/-!
# What formatting keeps

A formatted Brinefile describes the same document, line numbers apart. Only a removed symlink whose
path starts with an angle bracket is lost: printed behind its minus sign it makes an arrow.
-/

namespace Saltern

open Text

/-- The symlinks that some contents declare. -/
def Contents.links : Contents → List Symlink
  | .symlinks xs => xs
  | _ => []

namespace Section

variable {s s' : Section} {l l' : Line} {k : Keyword} {kind : ItemKind} {c : Contents}

/-! ## The entries of a printed section -/

/-- A printed section has the entries of the section, respelled, but for those printed as nothing. -/
theorem values_printed (hm : ∀ l ∈ s.lines, l.kind ≠ .marker) (h : s'.outline = s.printedOutline) :
    s'.values = (s.values.map s.keyword.respellContent).filter (!·.isEmpty) := by
  obtain ⟨-, hraws⟩ := Prod.mk.inj h
  rw [values_eq s', hraws, LineKind.contents_append, LineKind.contents_singleton_nil (by decide),
    List.append_nil, entries_printBody hm]

/-- A lone equals sign names no item. -/
theorem item_ne_ok_of_sign (h : l.content = ['=']) (i : Item) : item k kind l ≠ .ok i := by
  have hline : ItemLine.ofText ['='] = .present [] none := rfl
  rw [item, h, hline]
  nofun

theorem exists_items_of_contents (hk : s.keyword.holdsItems = true) (h : s.contents = .ok c) :
    ∃ kind xs, s.items kind = .ok xs := by
  unfold contents at h
  split at h
  case h_7 | h_8 | h_9 | h_10 =>
    obtain ⟨xs, hxs, -⟩ := map_eq_ok_iff.mp h
    exact ⟨_, xs, hxs⟩
  all_goals simp_all [Keyword.holdsItems]

/-- A section of items that is read has no lone equals sign. -/
theorem sign_not_mem_values (h : s.contents = .ok c) (hk : s.keyword.holdsItems = true) : ['='] ∉ s.values := by
  intro hmem
  obtain ⟨l, hl, hsign⟩ := List.mem_map.mp hmem
  obtain ⟨kind, xs, hxs⟩ := exists_items_of_contents hk h
  obtain ⟨i, -, hi⟩ := exists_of_mapM_eq_ok hxs hl
  exact item_ne_ok_of_sign hsign i hi

/-- In a section that is read, no entry is printed as nothing. -/
theorem map_content_printed (hm : ∀ l ∈ s.lines, l.kind ≠ .marker) (h : s'.outline = s.printedOutline)
    (hc : s.contents = .ok c) :
    s'.entries.map Line.content = s.entries.map fun l ↦ s.keyword.respellContent l.content := by
  have hvalues := values_printed hm h
  rwa [filter_respellContent (sign_not_mem_values hc), values, values, List.map_map] at hvalues

/-! ## Reading the printed entries -/

theorem item_of_ofText_eq {i : Item} (h : item k kind l = .ok i)
    (hline : ItemLine.ofText l'.content = ItemLine.ofText l.content) :
    item k kind l' = .ok { i with line := l'.number } := by
  unfold item at h ⊢
  rw [hline]
  split at h
  · cases h
  · split at h
    · cases h
    · next htarget =>
      cases h
      rw [if_neg htarget]
  · split at h
    · cases h
    · next htarget =>
      rw [if_neg htarget]
      split at h
      · cases h
        rfl
      · split at h
        · cases h
        · next hservice =>
          split at h
          · cases h
          · next hmode =>
            cases h
            rw [if_neg hservice, if_neg hmode]

theorem items_printed {xs : List Item} (hk : s.keyword.holdsItems = true) (hkey : s'.keyword = s.keyword)
    (hcontent : s'.entries.map Line.content = s.entries.map fun l ↦ s.keyword.respellContent l.content)
    (h : s.items kind = .ok xs) :
    ∃ ys, s'.items kind = .ok ys ∧ ys.map Item.unnumbered = xs.map Item.unnumbered := by
  rw [items, hkey]
  refine mapM_of_map_eq h hcontent fun l _ i _ hi l' hl' ↦ ⟨_, item_of_ofText_eq hi ?_, rfl⟩
  rw [hl', Keyword.itemLine_respellContent hk]

theorem symlinks_printed {xs : List Symlink} (hk : s.keyword = .symlinks)
    (hcontent : s'.entries.map Line.content = s.entries.map fun l ↦ s.keyword.respellContent l.content)
    (h : s.symlinks = .ok xs) (harrow : ∀ x ∈ xs, ¬ x.OpensWithArrow) :
    ∃ ys, s'.symlinks = .ok ys ∧ ys.map Symlink.unnumbered = xs.map Symlink.unnumbered := by
  refine mapM_of_map_eq h hcontent fun l _ x hx hlx l' hl' ↦ ?_
  unfold symlink at hlx ⊢
  cases hline : LinkLine.ofText? l.content with
  | none => simp [hline] at hlx
  | some link =>
      rw [hline] at hlx
      cases hlx
      rw [hl', hk, Keyword.linkLine_respellContent hline (harrow _ hx)]
      exact ⟨_, rfl, rfl⟩

theorem settings_printed {xs : List Setting} (hk : s.keyword = .sysctl)
    (hcontent : s'.entries.map Line.content = s.entries.map fun l ↦ s.keyword.respellContent l.content)
    (h : s.settings = .ok xs) : s'.settings = .ok xs := by
  obtain ⟨ys, hys, heq⟩ := mapM_of_map_eq (u := id) h hcontent fun l _ x _ hlx l' hl' ↦ by
    unfold setting at hlx ⊢
    cases hline : Setting.ofText? l.content with
    | none => simp [hline] at hlx
    | some kept =>
        rw [hline] at hlx
        rw [hl', hk, Keyword.setting_respellContent hline]
        by_cases hminus : kept.key.head? = some '-'
        · simp [hminus] at hlx
        · exact ⟨x, by simpa [hminus] using hlx, rfl⟩
  rw [settings, hys, (by simpa using heq : ys = xs)]

theorem cronjobs_printed {xs : List CronJob}
    (hcontent : s'.entries.map Line.content = s.entries.map Line.content) (h : s.cronjobs = .ok xs) :
    ∃ ys, s'.cronjobs = .ok ys ∧ ys.map CronJob.unnumbered = xs.map CronJob.unnumbered := by
  refine mapM_of_map_eq h hcontent fun l _ x _ hlx l' hl' ↦ ?_
  unfold cronjob at hlx ⊢
  rw [hl']
  cases hline : CronLine.ofText? l.content with
  | none => simp [hline] at hlx
  | some job =>
      rw [hline] at hlx
      cases hlx
      exact ⟨_, rfl, rfl⟩

theorem executables_unnumbered (s : Section) :
    s.executables.map Executable.unnumbered = s.values.map fun v ↦ ⟨v, 0⟩ := by
  rw [executables, values, List.map_map, List.map_map]
  rfl

/-- An identity section holds one entry, a dotted name. -/
theorem name_eq_ok_iff {n : Text} : s.name = .ok n ↔ s.values = [n] ∧ isDottedName n = true := by
  unfold name values
  cases s.entries with
  | nil => simp
  | cons l ls =>
      cases ls with
      | nil =>
          simp only [List.map_cons, List.map_nil, List.cons.injEq, and_true]
          by_cases hd : isDottedName l.content = true
          · rw [if_pos hd, Except.ok.injEq]
            exact ⟨fun h ↦ ⟨h, h ▸ hd⟩, And.left⟩
          · rw [if_neg hd]
            refine iff_of_false nofun ?_
            rintro ⟨rfl, h⟩
            exact hd h
      | cons m ls => simp

theorem name_of_values_eq {n : Text} (h : s'.values = s.values) (hn : s.name = .ok n) : s'.name = .ok n := by
  rw [name_eq_ok_iff] at hn ⊢
  rwa [h]

theorem verbatim_of_readme (h : s.keyword = .readme) : s.verbatim = joinWith ['\n'] s.printBody := by
  rw [verbatim, printBody, if_pos h]

/-- A readme is read alike when it was printed. -/
theorem verbatim_printed (hk : s.keyword = .readme) (h : s'.outline = s.printedOutline) :
    s'.verbatim = s.verbatim := by
  obtain ⟨hkey, hraws⟩ := Prod.mk.inj h
  rw [verbatim_of_readme (hkey.trans hk), verbatim_of_readme hk, printBody_printed_of_readme hk hkey hraws]

/-- A section that is read is read alike when it was printed, if no symlink in it opens with an
arrow. -/
theorem contents_printed (hm : ∀ l ∈ s.lines, l.kind ≠ .marker) (h : s'.outline = s.printedOutline)
    (hc : s.contents = .ok c) (harrow : ∀ x ∈ c.links, ¬ x.OpensWithArrow) :
    ∃ c', s'.contents = .ok c' ∧ c'.unnumbered = c.unnumbered := by
  obtain ⟨hkey, -⟩ := Prod.mk.inj h
  by_cases hreadme : s.keyword = .readme
  · rw [contents, hreadme] at hc
    cases hc
    exact ⟨.readme s'.verbatim, by rw [contents, hkey, hreadme], by rw [verbatim_printed hreadme h]⟩
  have hcontent := map_content_printed hm h hc
  have hplain : s.keyword.holdsItems = false → s.keyword ≠ .symlinks → s.keyword ≠ .sysctl →
      s'.values = s.values := by
    intro hitems hlinks hsettings
    rw [values, hcontent]
    exact List.map_congr_left fun l _ ↦
      Keyword.respellContent_of_plain hitems hlinks hsettings l.content
  have hitems : ∀ (kind : ItemKind) (xs : List Item), s.keyword.holdsItems = true → s.items kind = .ok xs →
      ∃ ys, s'.items kind = .ok ys ∧ ys.map Item.unnumbered = xs.map Item.unnumbered :=
    fun _ _ hk hxs ↦ items_printed hk hkey hcontent hxs
  unfold contents at hc ⊢
  rw [hkey]
  cases hk : s.keyword with
  | readme => exact absurd hk hreadme
  | rolename | elementname =>
      rw [hk] at hc hplain
      obtain ⟨n, hn, rfl⟩ := map_eq_ok_iff.mp hc
      have hname : s'.name = .ok n := name_of_values_eq (hplain rfl (by decide) (by decide)) hn
      exact ⟨_, map_eq_ok_iff.mpr ⟨n, hname, rfl⟩, rfl⟩
  | description | includes =>
      rw [hk] at hc hplain
      cases hc
      have hvalues := hplain rfl (by decide) (by decide)
      exact ⟨_, rfl, by simp only [prose, hvalues]⟩
  | sysctl =>
      rw [hk] at hc
      obtain ⟨xs, hxs, rfl⟩ := map_eq_ok_iff.mp hc
      exact ⟨_, map_eq_ok_iff.mpr ⟨xs, settings_printed hk hcontent hxs, rfl⟩, rfl⟩
  | packages | files | directories | services =>
      rw [hk] at hc hitems
      obtain ⟨xs, hxs, rfl⟩ := map_eq_ok_iff.mp hc
      obtain ⟨ys, hys, heq⟩ := hitems _ xs rfl hxs
      exact ⟨_, map_eq_ok_iff.mpr ⟨ys, hys, rfl⟩, by simp only [Contents.unnumbered, heq]⟩
  | symlinks =>
      rw [hk] at hc
      obtain ⟨xs, hxs, rfl⟩ := map_eq_ok_iff.mp hc
      obtain ⟨ys, hys, heq⟩ := symlinks_printed hk hcontent hxs harrow
      exact ⟨_, map_eq_ok_iff.mpr ⟨ys, hys, rfl⟩, by simp only [Contents.unnumbered, heq]⟩
  | commands | scripts =>
      rw [hk] at hc hplain
      cases hc
      have hvalues := hplain rfl (by decide) (by decide)
      have hexec : s'.executables.map Executable.unnumbered = s.executables.map Executable.unnumbered := by
        rw [executables_unnumbered, executables_unnumbered, hvalues]
      exact ⟨_, rfl, by simp only [Contents.unnumbered, hexec]⟩
  | cronjobs =>
      rw [hk] at hc hplain
      obtain ⟨xs, hxs, rfl⟩ := map_eq_ok_iff.mp hc
      obtain ⟨ys, hys, heq⟩ := cronjobs_printed (hplain rfl (by decide) (by decide)) hxs
      exact ⟨_, map_eq_ok_iff.mpr ⟨ys, hys, rfl⟩, by simp only [Contents.unnumbered, heq]⟩

/-- A symlink that opens with an arrow when it is printed is not read again. -/
theorem symlinks_ne_ok_of_arrow {xs : List Symlink} (hk : s.keyword = .symlinks)
    (hcontent : s'.entries.map Line.content = s.entries.map fun l ↦ s.keyword.respellContent l.content)
    (h : s.symlinks = .ok xs) {x : Symlink} (hx : x ∈ xs) (harrow : x.OpensWithArrow) (ys : List Symlink) :
    s'.symlinks ≠ .ok ys := by
  obtain ⟨l, hl, hlx⟩ := exists_of_mem_mapM h hx
  unfold symlink at hlx
  cases hline : LinkLine.ofText? l.content with
  | none => simp [hline] at hlx
  | some link =>
      rw [hline] at hlx
      cases hlx
      intro hys
      have hmem : s.keyword.respellContent l.content ∈ s'.entries.map Line.content :=
        hcontent ▸ List.mem_map_of_mem hl
      obtain ⟨l', hl', hl'content⟩ := List.mem_map.mp hmem
      obtain ⟨y, -, hy⟩ := exists_of_mapM_eq_ok hys hl'
      rw [symlink, hl'content, hk,
        Keyword.linkLine_respellContent_of_arrow l.isTrimmed_content hline harrow] at hy
      cases hy

theorem contents_ne_ok_of_arrow (hm : ∀ l ∈ s.lines, l.kind ≠ .marker) (h : s'.outline = s.printedOutline)
    (hc : s.contents = .ok c) {x : Symlink} (hx : x ∈ c.links) (harrow : x.OpensWithArrow)
    (c' : Contents) : s'.contents ≠ .ok c' := by
  obtain ⟨hkey, -⟩ := Prod.mk.inj h
  -- Only symlinks have links.
  have hk : s.keyword = .symlinks := by
    unfold contents at hc
    split at hc
    case h_11 hk => exact hk
    all_goals first
      | (cases hc; cases hx)
      | (obtain ⟨_, -, rfl⟩ := map_eq_ok_iff.mp hc; cases hx)
  have hcontent := map_content_printed hm h hc
  rw [contents, hk] at hc
  obtain ⟨xs, hxs, rfl⟩ := map_eq_ok_iff.mp hc
  rw [contents, hkey, hk]
  intro hc'
  obtain ⟨ys, hys, -⟩ := map_eq_ok_iff.mp hc'
  exact symlinks_ne_ok_of_arrow hk hcontent hxs hx harrow ys hys

end Section

namespace Document

variable {ss ss' : List Section} {cs : List Contents} {d : Document} {t : Text}

theorem map_keyword_printed (h : ss'.map Section.outline = ss.map Section.printedOutline) :
    ss'.map Section.keyword = ss.map Section.keyword := by
  have := congrArg (List.map Prod.fst) h
  rwa [List.map_map, List.map_map] at this

theorem symlinks_gather (kind : DocumentKind) (name description : Text) (cs : List Contents) :
    (gather kind name description cs).symlinks = cs.flatMap Contents.links :=
  congrArg (List.flatMap · cs) (funext fun c ↦ by cases c <;> rfl)

/-- Contents that are the same but for line numbers make documents that are. -/
theorem ofSections_of_unnumbered {cs' : List Contents} (h : ofSections ss = .ok d)
    (hcs : ss.mapM Section.contents = .ok cs) (hkeys : ss'.map Section.keyword = ss.map Section.keyword)
    (hcs' : ss'.mapM Section.contents = .ok cs')
    (heq : cs'.map Contents.unnumbered = cs.map Contents.unnumbered) :
    ∃ d', ofSections ss' = .ok d' ∧ d'.unnumbered = d.unnumbered := by
  obtain ⟨cs₀, hread, kind, name, hid, hprose, rfl⟩ := ofSections_eq_ok_iff.mp h
  obtain ⟨honce, hcs₀⟩ := readSections_eq_ok_iff.mp hread
  rw [hcs₀] at hcs
  cases hcs
  have hid' : identity? cs' = some (kind, name) := by
    rw [← identity?_unnumbered, heq, identity?_unnumbered, hid]
  have hprose' : prose cs' = prose cs := by
    rw [prose, ← descriptions_unnumbered, heq, descriptions_unnumbered, prose]
  refine ⟨gather kind name (prose cs') cs', ofSections_eq_ok_iff.mpr ⟨cs', ?_, kind, name, hid', ?_, rfl⟩, ?_⟩
  · exact readSections_eq_ok_iff.mpr ⟨hkeys ▸ honce, hcs'⟩
  · rwa [hprose']
  · rw [unnumbered_gather, unnumbered_gather, heq, hprose']

/-- Printed sections describe the same document exactly when no symlink opens with an arrow. -/
theorem ofSections_printed_iff (hm : ∀ s ∈ ss, ∀ l ∈ s.lines, l.kind ≠ .marker)
    (hout : ss'.map Section.outline = ss.map Section.printedOutline) (h : ofSections ss = .ok d) :
    (∃ d', ofSections ss' = .ok d' ∧ d'.unnumbered = d.unnumbered) ↔
      ∀ l ∈ d.symlinks, ¬ l.OpensWithArrow := by
  obtain ⟨cs, hread, kind, name, hid, hprose, hd⟩ := ofSections_eq_ok_iff.mp h
  have hcs := (readSections_eq_ok_iff.mp hread).2
  have hlinks : d.symlinks = cs.flatMap Contents.links := by rw [hd, symlinks_gather]
  constructor
  · rintro ⟨d', hd', -⟩ x hx harrow
    rw [hlinks] at hx
    obtain ⟨c, hc, hxc⟩ := List.mem_flatMap.mp hx
    obtain ⟨s, hs, hsc⟩ := exists_of_mem_mapM hcs hc
    have hmem : s.printedOutline ∈ ss'.map Section.outline := hout ▸ List.mem_map_of_mem hs
    obtain ⟨s', hs', hs'out⟩ := List.mem_map.mp hmem
    obtain ⟨cs', hread', -⟩ := ofSections_eq_ok_iff.mp hd'
    obtain ⟨c', -, hc'⟩ := exists_of_mapM_eq_ok (readSections_eq_ok_iff.mp hread').2 hs'
    exact Section.contents_ne_ok_of_arrow (hm s hs) hs'out hsc hxc harrow c' hc'
  · intro harrow
    obtain ⟨cs', hcs', heq⟩ := mapM_of_map_eq (u := Contents.unnumbered) hcs hout
      fun s hs c hc hsc s' hs' ↦ Section.contents_printed (hm s hs) hs' hsc
        fun x hx ↦ harrow x (hlinks ▸ List.mem_flatMap.mpr ⟨c, hc, hx⟩)
    exact ofSections_of_unnumbered h hcs (map_keyword_printed hout) hcs' heq

/-- A text without stray carriage returns that describes a document can be formatted, and then
describes the same document exactly when no removed symlink's path starts with an angle bracket. -/
theorem ofText_format_iff (preserveNewlines : Bool) (hreturns : t.ReturnsEndLines) (h : ofText t = .ok d) :
    ∃ f, Brinefile.format preserveNewlines t = .ok f ∧
      ((∃ d', ofText f.text = .ok d' ∧ d'.unnumbered = d.unnumbered) ↔
        ∀ l ∈ d.symlinks, ¬ l.OpensWithArrow) := by
  unfold ofText at h
  cases hb : Brinefile.ofText t with
  | error e => simp [hb] at h
  | ok b =>
      rw [hb] at h
      let ending := if preserveNewlines then LineEnding.prevailing t else .lf
      obtain ⟨b', hb', hreread⟩ := Brinefile.ofText_printed hb ending
      -- No line holds a carriage return that the next reading could take for an ending.
      have hkept : ∀ l ∈ b.printLines, ending.reread l = l := by
        intro l hl
        refine LineEnding.reread_of_ne fun hlast ↦ ?_
        have hmem : '\r' ∈ l := List.mem_of_mem_getLast? hlast
        rcases Brinefile.mem_printLines hb hl with rfl | ⟨s, -, rfl⟩ | ⟨u, hu, hsub⟩
        · cases hmem
        · revert hmem
          cases s.keyword <;> decide
        · exact hreturns.not_mem hu (hsub.subset hmem)
      have hout := (hreread.of_kept hkept).2
      refine ⟨⟨ending.joinLines b.printLines, ending.joinLines b.printLines != t⟩, ?_, ?_⟩
      · rw [Brinefile.format, hb]
      · rw [← ofSections_printed_iff (fun s hs l hl ↦ ((Brinefile.ofText_lines hb).2 s hs l hl).2) hout h]
        rw [ofText, hb']

/-- A removed symlink, printed without its inner blanks, is read again as the same one. -/
theorem ofText_format_removed_symlink :
    ∃ d f d', ofText "%rolename\nr\n\n%description\nd\n\n%symlinks\n - b -> c\n" = .ok d ∧
      Brinefile.format true "%rolename\nr\n\n%description\nd\n\n%symlinks\n - b -> c\n" = .ok f ∧
        ofText f.text = .ok d' ∧ d'.unnumbered = d.unnumbered := by
  have hreturns : ReturnsEndLines "%rolename\nr\n\n%description\nd\n\n%symlinks\n - b -> c\n" :=
    returnsEndLines_of_not_mem (by decide)
  obtain ⟨f, hf, hiff⟩ := ofText_format_iff true hreturns rfl
  obtain ⟨d', hd', heq⟩ := hiff.mpr (by decide)
  exact ⟨_, f, d', rfl, hf, hd', heq⟩

/-- With an angle bracket in front of the path the printed line is rejected. -/
theorem ofText_format_opening_arrow :
    (∃ d, ofText "%rolename\nr\n\n%description\nd\n\n%symlinks\n- >a->b\n" = .ok d) ∧
      ∃ f, Brinefile.format true "%rolename\nr\n\n%description\nd\n\n%symlinks\n- >a->b\n" = .ok f ∧
        ofText f.text = .error (.malformedSymlink "->a->b" 8) :=
  ⟨⟨_, rfl⟩, _, rfl, rfl⟩

end Document

end Saltern
