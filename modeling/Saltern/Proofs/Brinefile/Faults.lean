import Saltern.Proofs.Brinefile.Cutting
import Saltern.Proofs.Brinefile.Grammar
import Saltern.Proofs.Document.Reading

/-!
# Sections and their faults

Where a text is cut into sections, and what a section is blamed for: a text for the first marker
that names no section, a section for its first entry that is none.
-/

namespace Saltern

open Text

/-! ## The first that fails -/

section First

variable {α β ε : Type} {ok : α → Prop} {f : α → Except ε β} {a b : α} {as : List α} {e : ε}

/-- The first of a list for which a condition does not hold. -/
def IsFirst (ok : α → Prop) (as : List α) (a : α) : Prop :=
  ∃ front rest, as = front ++ a :: rest ∧ (∀ b ∈ front, ok b) ∧ ¬ ok a

theorem IsFirst.exists_not (h : IsFirst ok as a) : ∃ b ∈ as, ¬ ok b := by
  obtain ⟨front, rest, rfl, -, ha⟩ := h
  exact ⟨a, List.mem_append_right front List.mem_cons_self, ha⟩

@[simp] theorem not_isFirst_nil : ¬ IsFirst ok [] a := by
  rintro ⟨front, rest, hsplit, -⟩
  cases front <;> cases hsplit

theorem isFirst_cons_of_not (hb : ¬ ok b) : IsFirst ok (b :: as) a ↔ a = b := by
  constructor
  · rintro ⟨front, rest, hsplit, hfront, -⟩
    cases front with
    | nil => exact (List.cons.inj hsplit).1.symm
    | cons c front =>
        obtain ⟨rfl, -⟩ := List.cons.inj hsplit
        exact absurd (hfront b List.mem_cons_self) hb
  · rintro rfl
    exact ⟨[], as, rfl, nofun, hb⟩

theorem isFirst_cons_of (hb : ok b) : IsFirst ok (b :: as) a ↔ IsFirst ok as a := by
  constructor
  · rintro ⟨front, rest, hsplit, hfront, ha⟩
    cases front with
    | nil =>
        obtain ⟨rfl, -⟩ := List.cons.inj hsplit
        exact absurd hb ha
    | cons c front =>
        obtain ⟨rfl, rfl⟩ := List.cons.inj hsplit
        exact ⟨front, rest, rfl, (List.forall_mem_cons.mp hfront).2, ha⟩
  · rintro ⟨front, rest, rfl, hfront, ha⟩
    exact ⟨b :: front, rest, rfl, List.forall_mem_cons.mpr ⟨hb, hfront⟩, ha⟩

/-- Whether reading an element succeeds. -/
def Reads (f : α → Except ε β) (a : α) : Prop := ∃ x, f a = .ok x

theorem not_reads_of_error (h : f a = .error e) : ¬ Reads f a := by
  rintro ⟨x, hx⟩
  cases h.symm.trans hx

/-- A traversal succeeds where every element is read. -/
theorem exists_mapM_eq_ok_iff : (∃ xs, as.mapM f = .ok xs) ↔ ∀ a ∈ as, Reads f a := by
  simp only [mapM_eq_ok_iff]
  induction as with
  | nil => simp
  | cons a as ih =>
      rw [List.forall_mem_cons, ← ih]
      constructor
      · rintro ⟨xs, h⟩
        obtain ⟨x, xs, hx, hxs, rfl⟩ := List.forall₂_cons_left_iff.mp h
        exact ⟨⟨x, hx⟩, xs, hxs⟩
      · rintro ⟨⟨x, hx⟩, xs, hxs⟩
        exact ⟨x :: xs, .cons hx hxs⟩

/-- Otherwise it fails as the first element does that is not read. -/
theorem mapM_eq_error_iff :
    as.mapM f = .error e ↔ ∃ a, IsFirst (Reads f) as a ∧ f a = .error e := by
  induction as with
  | nil => simp [pure, Except.pure]
  | cons b as ih =>
      rw [List.mapM_cons]
      cases hb : f b with
      | error e' =>
          simp only [isFirst_cons_of_not (not_reads_of_error hb), exists_eq_left, hb]
          simp [bind, Except.bind]
      | ok x =>
          have hreads : Reads f b := ⟨x, hb⟩
          simp only [isFirst_cons_of hreads, ← ih]
          cases as.mapM f <;> simp [bind, Except.bind, pure, Except.pure]

end First

/-! ## Markers -/

namespace Line

variable {l : Line}

/-- Whether a line is a marker: whether a percent sign stands in its first column. -/
def IsMarker (l : Line) : Prop := l.raw.head? = some '%'

/-- What a marker names: all that stands behind its percent sign, trimmed, in lower case. -/
def marked (l : Line) : Text := lower (trim l.raw.tail)

theorem kind_eq_marker_iff : l.kind = .marker ↔ l.IsMarker := LineKind.ofRaw_eq_marker_iff

theorem spelledBy_content (h : l.IsMarker) : Keyword.spelledBy l.content = l.marked := by
  obtain ⟨r, hr⟩ := List.head?_eq_some_iff.mp h
  rw [Keyword.spelledBy, content, marked, hr]
  obtain ⟨a, b, ht, ha, hb⟩ := exists_eq_trim ('%' :: r)
  cases a with
  | cons c a => 
      obtain ⟨rfl, -⟩ := List.cons.inj ht
      exact absurd (ha _ List.mem_cons_self) (by decide)
  | nil =>
      obtain ⟨m, hm⟩ := List.head?_eq_some_iff.mp (head?_trim (t := '%' :: r) rfl (by decide))
      rw [hm] at ht ⊢
      obtain ⟨-, hr⟩ := List.cons.inj ht
      have htrim : trim (m ++ b) = trim m := by simpa using trim_append_append (a := []) (t := m) (List.forall_mem_nil _) hb
      change lower (trim m) = lower (trim r)
      rw [hr, ← htrim]
      rfl

end Line

theorem Keyword.ofName?_eq_some_iff {k : Keyword} {t : Text} : ofName? t = some k ↔ k.name = t :=
  ⟨name_of_ofName?, fun h ↦ h ▸ ofName?_name k⟩

namespace Brinefile

variable {ls preamble : List Line} {ss : List Section} {pieces : List (Line × Section)} {e : Fault}

/-- Lines that are a preamble and, one after the other, sections behind their markers: each section
is of the keyword that its marker names, and no marker stands elsewhere. -/
structure IsCut (ls preamble : List Line) (pieces : List (Line × Section)) : Prop where
  lines : ls = preamble ++ pieces.flatMap fun p ↦ p.1 :: p.2.lines
  marker : ∀ p ∈ pieces, p.1.IsMarker ∧ p.2.keyword.name = p.1.marked ∧ p.2.line = p.1.number
  preamble : ∀ l ∈ preamble, ¬ l.IsMarker
  body : ∀ p ∈ pieces, ∀ l ∈ p.2.lines, ¬ l.IsMarker

/-- A marker opens a section, or is to blame. -/
theorem gather_cons_of_isMarker {l : Line} (hl : l.IsMarker) (ls : List Line) :
    gather (l :: ls) =
      match Keyword.ofName? l.marked with
      | none => .error (.unknownSection l.marked l.number)
      | some k => (gather ls).map fun r ↦ ([], ⟨k, l.number, r.1⟩ :: r.2) := by
  rw [gather, if_pos (Line.kind_eq_marker_iff.mpr hl), Line.spelledBy_content hl]
  cases Keyword.ofName? l.marked with
  | none => rfl
  | some k => cases gather ls <;> rfl

/-- Any other line joins those behind it. -/
theorem gather_cons_of_not_isMarker {l : Line} (hl : ¬ l.IsMarker) (ls : List Line) :
    gather (l :: ls) = (gather ls).map fun r ↦ (l :: r.1, r.2) := by
  rw [gather, if_neg fun h ↦ hl (Line.kind_eq_marker_iff.mp h)]
  cases gather ls <;> rfl

/-- Lines are cut at their markers. -/
theorem gather_eq_ok_iff :
    gather ls = .ok (preamble, ss) ↔ ∃ pieces, IsCut ls preamble pieces ∧ pieces.map Prod.snd = ss := by
  constructor
  · intro h
    induction ls generalizing preamble ss with
    | nil =>
        cases h
        exact ⟨[], ⟨rfl, nofun, nofun, nofun⟩, rfl⟩
    | cons l ls ih =>
        by_cases hl : l.IsMarker
        · rw [gather_cons_of_isMarker hl] at h
          cases hk : Keyword.ofName? l.marked with
          | none => simp [hk] at h
          | some k =>
              rw [hk] at h
              obtain ⟨⟨body, sections⟩, hg, hr⟩ := map_eq_ok_iff.mp h
              obtain ⟨rfl, rfl⟩ := Prod.mk.inj hr
              obtain ⟨pieces, ⟨hlines, hmarker, hplain, hbody⟩, rfl⟩ := ih hg
              refine ⟨(l, ⟨k, l.number, body⟩) :: pieces, ⟨?_, ?_, nofun, ?_⟩, rfl⟩
              · rw [hlines, List.nil_append, List.flatMap_cons, List.cons_append]
              · exact List.forall_mem_cons.mpr ⟨⟨hl, Keyword.name_of_ofName? hk, rfl⟩, hmarker⟩
              · exact List.forall_mem_cons.mpr ⟨hplain, hbody⟩
        · rw [gather_cons_of_not_isMarker hl] at h
          obtain ⟨⟨body, sections⟩, hg, hr⟩ := map_eq_ok_iff.mp h
          obtain ⟨rfl, rfl⟩ := Prod.mk.inj hr
          obtain ⟨pieces, ⟨hlines, hmarker, hplain, hbody⟩, hss⟩ := ih hg
          refine ⟨pieces, ⟨?_, hmarker, ?_, hbody⟩, hss⟩
          · rw [hlines, List.cons_append]
          · exact List.forall_mem_cons.mpr ⟨hl, hplain⟩
  · rintro ⟨pieces, ⟨rfl, hmarker, hplain, hbody⟩, rfl⟩
    have hkind : ∀ {ls : List Line}, (∀ l ∈ ls, ¬ l.IsMarker) → ∀ l ∈ ls, l.kind ≠ .marker :=
      fun h l hl hm ↦ h l hl (Line.kind_eq_marker_iff.mp hm)
    suffices hpieces : gather (pieces.flatMap fun p ↦ p.1 :: p.2.lines) = .ok ([], pieces.map Prod.snd) by
      simpa using gather_append (hkind hplain) hpieces
    clear hplain
    induction pieces with
    | nil => rfl
    | cons p pieces ih =>
        obtain ⟨⟨hp, hk, hn⟩, hrest⟩ := List.forall_mem_cons.mp hmarker
        obtain ⟨hpbody, hrestbody⟩ := List.forall_mem_cons.mp hbody
        have hbehind := gather_append (hkind hpbody) (ih hrest hrestbody)
        rw [List.append_nil] at hbehind
        rw [List.flatMap_cons, List.cons_append, gather_cons_of_isMarker hp,
          Keyword.ofName?_eq_some_iff.mpr hk, hbehind, ← hn]
        rfl

/-- Whether a line that is a marker names a section. -/
def IsKnown (l : Line) : Prop := l.IsMarker → ∃ k : Keyword, k.name = l.marked

/-- Otherwise the first marker is to blame that names no section. -/
theorem gather_eq_error_iff :
    gather ls = .error e ↔ ∃ l, IsFirst IsKnown ls l ∧ e = .unknownSection l.marked l.number := by
  induction ls with
  | nil => simp [gather]
  | cons l ls ih =>
      by_cases hl : l.IsMarker
      · rw [gather_cons_of_isMarker hl]
        cases hk : Keyword.ofName? l.marked with
        | none =>
            have hno : ¬ IsKnown l := by
              rintro h
              obtain ⟨k, hk'⟩ := h hl
              rw [Keyword.ofName?_eq_some_iff.mpr hk'] at hk
              cases hk
            simp only [isFirst_cons_of_not hno, exists_eq_left, Except.error.injEq]
            exact eq_comm
        | some k =>
            have hknown : IsKnown l := fun _ ↦ ⟨k, Keyword.name_of_ofName? hk⟩
            simp only [isFirst_cons_of hknown, ← ih]
            cases gather ls <;> simp [Except.map]
      · rw [gather_cons_of_not_isMarker hl]
        have hknown : IsKnown l := fun h ↦ absurd h hl
        simp only [isFirst_cons_of hknown, ← ih]
        cases gather ls <;> simp [Except.map]

end Brinefile

/-! ## Sections -/

namespace Keyword

/-- Whether a text is an entry of a section. Sections whose entries are plain texts take any. -/
def IsEntry (k : Keyword) (t : Text) : Prop :=
  match k with
  | .sysctl => IsSetting t
  | .packages => IsItem .package t
  | .files => IsItem .file t
  | .directories => IsItem .directory t
  | .services => IsItem .service t
  | .symlinks => IsLink t
  | .cronjobs => IsCronLine t
  | _ => True

/-- What an entry of a section is blamed for. -/
def EntryFault (k : Keyword) (l : Line) (e : Fault) : Prop :=
  match k with
  | .sysctl => SettingFault l e
  | .packages => ItemFault .packages .package l e
  | .files => ItemFault .files .file l e
  | .directories => ItemFault .directories .directory l e
  | .services => ItemFault .services .service l e
  | .symlinks => ¬ IsLink l.content ∧ e = .malformedSymlink l.content l.number
  | .cronjobs => ¬ IsCronLine l.content ∧ e = .malformedCronjob l.content l.number
  | _ => False

end Keyword

namespace Section

variable {s : Section} {e : Fault}

/-- A section that is read: one entry that is a dotted name where it declares the identity, and
entries of its own kind. -/
structure IsFit (s : Section) : Prop where
  name : s.keyword.isIdentity = true → ∃ n, s.values = [n] ∧ IsDotted n
  entry : ∀ l ∈ s.entries, s.keyword.IsEntry l.content

/-- What a section is blamed for that is not read. -/
inductive Blame (s : Section) : Fault → Prop
  | emptyIdentity (hk : s.keyword.isIdentity = true) (h : s.entries = []) :
      Blame s (.emptyIdentity s.keyword s.line)
  | notDotted {l : Line} (hk : s.keyword.isIdentity = true) (h : s.entries = [l])
      (hname : ¬ IsDotted l.content) : Blame s (.notDotted l.content s.keyword l.number)
  | severalNames {l m : Line} {rest : List Line} (hk : s.keyword.isIdentity = true)
      (h : s.entries = l :: m :: rest) :
      Blame s (.severalNames l.content m.content s.keyword m.number)
  | entry {l : Line} {e : Fault} (h : IsFirst (fun m ↦ s.keyword.IsEntry m.content) s.entries l)
      (he : s.keyword.EntryFault l e) : Blame s e

/-- Each entry of a symlink section is read as a symlink, or blamed for being none. -/
theorem reads_symlink_iff (l : Line) : Reads symlink l ↔ IsLink l.content := by
  rw [← LinkLine.exists_ofText?_iff l.isTrimmed_content, Reads, symlink]
  cases LinkLine.ofText? l.content <;> simp

theorem symlink_eq_error_iff {l : Line} :
    symlink l = .error e ↔ ¬ IsLink l.content ∧ e = .malformedSymlink l.content l.number := by
  rw [← LinkLine.exists_ofText?_iff l.isTrimmed_content, symlink]
  cases LinkLine.ofText? l.content <;> simp [eq_comm]

theorem reads_cronjob_iff (l : Line) : Reads cronjob l ↔ IsCronLine l.content := by
  rw [← CronLine.exists_ofText?_iff l.isTrimmed_content, Reads, cronjob]
  cases CronLine.ofText? l.content <;> simp

theorem cronjob_eq_error_iff {l : Line} :
    cronjob l = .error e ↔ ¬ IsCronLine l.content ∧ e = .malformedCronjob l.content l.number := by
  rw [← CronLine.exists_ofText?_iff l.isTrimmed_content, cronjob]
  cases CronLine.ofText? l.content <;> simp [eq_comm]

/-- A section whose entries are read one by one is read where they all are, and blamed for the
first that is not. -/
theorem contents_of_entries {β : Type} {f : Line → Except Fault β} {g : List β → Contents}
    (hk : s.keyword.isIdentity = false) (hc : s.contents = (s.entries.mapM f).map g)
    (hread : ∀ l, Reads f l ↔ s.keyword.IsEntry l.content)
    (hfault : ∀ l e, f l = .error e ↔ s.keyword.EntryFault l e) :
    (Reads contents s ↔ s.IsFit) ∧ ∀ e, s.contents = .error e ↔ s.Blame e := by
  have hentry : Reads f = fun l ↦ s.keyword.IsEntry l.content := funext fun l ↦ propext (hread l)
  have herror : ∀ e, s.contents = .error e ↔ s.entries.mapM f = .error e := by
    intro e
    rw [hc]
    cases s.entries.mapM f <;> simp [Except.map]
  constructor
  · have hall : Reads contents s ↔ ∀ l ∈ s.entries, s.keyword.IsEntry l.content := by
      rw [show Reads contents s ↔ ∃ xs, s.entries.mapM f = .ok xs by
        rw [Reads, hc]; cases s.entries.mapM f <;> simp [Except.map], exists_mapM_eq_ok_iff, hentry]
    rw [hall]
    exact ⟨fun h ↦ ⟨fun hid ↦ absurd (hk.symm.trans hid) (by decide), h⟩, IsFit.entry⟩
  · intro e
    rw [herror, mapM_eq_error_iff, hentry]
    constructor
    · rintro ⟨l, hl, he⟩
      exact .entry hl ((hfault l e).mp he)
    · rintro (⟨hid, -⟩ | ⟨hid, -⟩ | ⟨hid, -⟩ | ⟨hl, he⟩)
      · simp [hk] at hid
      · simp [hk] at hid
      · simp [hk] at hid
      · exact ⟨_, hl, (hfault _ e).mpr he⟩

/-- A section of plain texts is always read. -/
theorem contents_of_plain {c : Contents} (hk : s.keyword.isIdentity = false) (hc : s.contents = .ok c)
    (hentry : ∀ t, s.keyword.IsEntry t) :
    (Reads contents s ↔ s.IsFit) ∧ ∀ e, s.contents = .error e ↔ s.Blame e := by
  constructor
  · exact ⟨fun _ ↦ ⟨fun hid ↦ absurd (hk.symm.trans hid) (by decide), fun l _ ↦ hentry l.content⟩,
      fun _ ↦ ⟨c, hc⟩⟩
  · intro e
    rw [hc]
    constructor
    · nofun
    · rintro (⟨hid, -⟩ | ⟨hid, -⟩ | ⟨hid, -⟩ | ⟨⟨_, _, -, -, hno⟩, -⟩)
      · simp [hk] at hid
      · simp [hk] at hid
      · simp [hk] at hid
      · exact absurd (hentry _) hno

/-- Only a single dotted name is read as an identity. -/
theorem name_spec (s : Section) :
    (Reads name s ↔ ∃ n, s.values = [n] ∧ IsDotted n) ∧
      ∀ e, s.name = .error e ↔
        (s.entries = [] ∧ e = .emptyIdentity s.keyword s.line) ∨
          (∃ l, s.entries = [l] ∧ ¬ IsDotted l.content ∧ e = .notDotted l.content s.keyword l.number) ∨
            ∃ l m rest, s.entries = l :: m :: rest ∧
              e = .severalNames l.content m.content s.keyword m.number := by
  simp only [Reads, name, values]
  match s.entries with
  | [] => simp [eq_comm]
  | [l] =>
      by_cases hl : isDottedName l.content = true
      · simp [hl, isDottedName_iff.mp hl]
      · have hdotted : ¬ IsDotted l.content := fun h ↦ hl (isDottedName_iff.mpr h)
        simp [hl, hdotted, eq_comm]
  | l :: m :: rest =>
      refine ⟨by simp, fun e ↦ ?_⟩
      simp only [Except.error.injEq, List.cons.injEq, reduceCtorEq, false_and, exists_false, and_false,
        false_or]
      constructor
      · rintro rfl
        exact ⟨l, m, rest, ⟨rfl, rfl, rfl⟩, rfl⟩
      · rintro ⟨_, _, _, ⟨rfl, rfl, rfl⟩, rfl⟩
        rfl

theorem contents_of_identity {g : Text → Contents} (hk : s.keyword.isIdentity = true)
    (hc : s.contents = s.name.map g) (hentry : ∀ t, s.keyword.IsEntry t) :
    (Reads contents s ↔ s.IsFit) ∧ ∀ e, s.contents = .error e ↔ s.Blame e := by
  obtain ⟨hreads, herror⟩ := name_spec s
  constructor
  · have hname : Reads contents s ↔ Reads name s := by
      rw [Reads, Reads, hc]
      cases s.name <;> simp [Except.map]
    rw [hname, hreads]
    exact ⟨fun h ↦ ⟨fun _ ↦ h, fun l _ ↦ hentry l.content⟩, fun h ↦ h.name hk⟩
  · intro e
    have hname : s.contents = .error e ↔ s.name = .error e := by
      rw [hc]
      cases s.name <;> simp [Except.map]
    rw [hname, herror]
    constructor
    · rintro (⟨h, rfl⟩ | ⟨l, h, hdotted, rfl⟩ | ⟨l, m, rest, h, rfl⟩)
      · exact .emptyIdentity hk h
      · exact .notDotted hk h hdotted
      · exact .severalNames hk h
    · rintro (⟨-, h⟩ | ⟨-, h, hdotted⟩ | ⟨-, h⟩ | ⟨⟨_, _, -, -, hno⟩, -⟩)
      · exact .inl ⟨h, rfl⟩
      · exact .inr (.inl ⟨_, h, hdotted, rfl⟩)
      · exact .inr (.inr ⟨_, _, _, h, rfl⟩)
      · exact absurd (hentry _) hno

/-- A section is read exactly when it is fit, and is blamed for what it misses first. -/
theorem contents_spec (s : Section) :
    (Reads contents s ↔ s.IsFit) ∧ ∀ e, s.contents = .error e ↔ s.Blame e := by
  obtain ⟨k, line, lines⟩ := s
  cases k with
  | rolename => exact contents_of_identity rfl rfl fun _ ↦ trivial
  | elementname => exact contents_of_identity rfl rfl fun _ ↦ trivial
  | description => exact contents_of_plain rfl rfl fun _ ↦ trivial
  | readme => exact contents_of_plain rfl rfl fun _ ↦ trivial
  | includes => exact contents_of_plain rfl rfl fun _ ↦ trivial
  | commands => exact contents_of_plain rfl rfl fun _ ↦ trivial
  | scripts => exact contents_of_plain rfl rfl fun _ ↦ trivial
  | sysctl => exact contents_of_entries rfl rfl (fun _ ↦ exists_setting_iff) fun _ _ ↦ setting_eq_error_iff
  | packages => exact contents_of_entries rfl rfl (fun _ ↦ exists_item_iff) fun _ _ ↦ item_eq_error_iff
  | files => exact contents_of_entries rfl rfl (fun _ ↦ exists_item_iff) fun _ _ ↦ item_eq_error_iff
  | directories => exact contents_of_entries rfl rfl (fun _ ↦ exists_item_iff) fun _ _ ↦ item_eq_error_iff
  | services => exact contents_of_entries rfl rfl (fun _ ↦ exists_item_iff) fun _ _ ↦ item_eq_error_iff
  | symlinks => exact contents_of_entries rfl rfl reads_symlink_iff fun _ _ ↦ symlink_eq_error_iff
  | cronjobs => exact contents_of_entries rfl rfl reads_cronjob_iff fun _ _ ↦ cronjob_eq_error_iff

end Section

end Saltern
