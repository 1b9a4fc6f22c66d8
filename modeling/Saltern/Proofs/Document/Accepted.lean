import Saltern.Proofs.Brinefile.Cutting
import Saltern.Proofs.Brinefile.Grammar
import Saltern.Proofs.Brinefile.LinkSpelling
import Saltern.Proofs.Document.Reading
import Saltern.Proofs.Salt.Declaration

/-!
# Accepted documents

In a document that was read from a text every item stands in the list of its kind, and all that its
entries say was said on one line.
-/

namespace Saltern

open Text

/-- An item of a kind, without line feeds. -/
structure Item.Filed (kind : ItemKind) (i : Item) : Prop where
  kind_eq : i.kind = kind
  target : IsLine i.target
  state : i.state.OneLine

/-- A crontab line without line feeds. -/
structure CronLine.OneLine (c : CronLine) : Prop where
  command : IsLine c.command
  schedule : c.schedule.OneLine

/-- A symlink without line feeds. -/
structure LinkLine.OneLine (l : LinkLine) : Prop where
  linkPath : IsLine l.linkPath
  targetPath : IsLine l.targetPath

/-- A setting without line feeds. -/
structure Setting.OneLine (s : Setting) : Prop where
  key : IsLine s.key
  value : IsLine s.value

/-! ## Parts of a line -/

theorem ItemLine.isLine_of_ofText {t : Text} (h : IsLine t) : IsLine (ofText t).text :=
  h.subset fun _ hc ↦ (text_ofText_sublist t).subset hc

theorem Setting.oneLine_of_ofText? {t : Text} {s : Setting} (h : IsLine t) (hs : ofText? t = some s) :
    s.OneLine := by
  have hline : IsLine s.text := h.subset fun _ hc ↦ (text_sublist hs).subset hc
  rw [text, isLine_append, isLine_cons] at hline
  exact ⟨hline.1, hline.2.2⟩

theorem LinkLine.oneLine_of_ofText? {t : Text} {l : LinkLine} (h : IsLine t) (hl : ofText? t = some l) :
    l.OneLine := by
  have hline : IsLine l.text := h.subset fun _ hc ↦ (text_sublist hl).subset hc
  rw [text, isLine_append, isLine_append, isLine_cons, isLine_cons] at hline
  exact ⟨hline.1.2, hline.2.2.2⟩

theorem Text.IsLine.firstWord {t w r : Text} (h : IsLine t) (hw : Text.firstWord t = some (w, r)) :
    IsLine w ∧ IsLine r := by
  simp only [Text.firstWord] at hw
  split at hw
  · cases hw
  · cases hw
    refine ⟨h.subset fun c hc ↦ (List.takeWhile_sublist _).subset hc, h.subset fun c hc ↦ ?_⟩
    exact (List.dropWhile_sublist _).subset ((List.dropWhile_sublist _).subset hc)

namespace CronLine

variable {t u : Text} {c : CronLine}

theorem isLine_of_ends (h : ∀ c ∈ t, isLineEnd c = false) : IsLine t := fun hn ↦ absurd (h _ hn) (by decide)

theorem isLine_of_mem_specials {name : Text} (h : name ∈ specials) : IsLine name := by
  revert name
  decide

theorem oneLine_of_ofSpecial? (h : ofSpecial? t = some c) : c.OneLine := by
  obtain ⟨word, rest, -, hname, hends, rfl⟩ := ofSpecial?_eq_some_iff.mp h
  exact ⟨isLine_of_ends hends, isLine_of_mem_specials hname⟩

theorem oneLine_of_ofFields? (ht : IsLine t) (h : ofFields? t = some c) : c.OneLine := by
  obtain ⟨minute, hour, dayOfMonth, month, dayOfWeek, rest, hwords, hends, rfl⟩ := ofFields?_eq_some_iff.mp h
  simp only [firstWords_cons_eq_some_iff] at hwords
  obtain ⟨t₁, h₁, t₂, h₂, t₃, h₃, t₄, h₄, _, h₅, ⟨⟩⟩ := hwords
  obtain ⟨hminute, ht₁⟩ := ht.firstWord h₁
  obtain ⟨hhour, ht₂⟩ := ht₁.firstWord h₂
  obtain ⟨hdayOfMonth, ht₃⟩ := ht₂.firstWord h₃
  obtain ⟨hmonth, ht₄⟩ := ht₃.firstWord h₄
  obtain ⟨hdayOfWeek, -⟩ := ht₄.firstWord h₅
  exact ⟨isLine_of_ends hends, hminute, hhour, hdayOfMonth, hmonth, hdayOfWeek⟩

theorem oneLine_of_ofText? (ht : IsLine t) (h : ofText? t = some c) : c.OneLine := by
  simp only [ofText?] at h
  split at h
  · exact oneLine_of_ofSpecial? h
  · exact oneLine_of_ofFields? (ht.subset fun _ hc ↦ mem_of_mem_trim hc) h

end CronLine

/-! ## Contents of accepted sections -/

/-- Contents whose items are in the lists of their kinds, without line feeds where an entry is one
line. -/
def Contents.Filed : Contents → Prop
  | .identity kind name => IsLine kind.word ∧ IsLine name
  | .description _ | .readme _ => True
  | .includes states => ∀ i ∈ states, IsLine i
  | .sysctl settings => ∀ s ∈ settings, s.OneLine
  | .packages items => ∀ i ∈ items, i.Filed .package
  | .files items => ∀ i ∈ items, i.Filed .file
  | .directories items => ∀ i ∈ items, i.Filed .directory
  | .services items => ∀ i ∈ items, i.Filed .service
  | .symlinks links => ∀ l ∈ links, l.OneLine
  | .commands xs | .scripts xs => ∀ x ∈ xs, IsLine x.value
  | .cronjobs jobs => ∀ j ∈ jobs, j.OneLine

namespace Section

variable {s : Section} {l : Line} {k : Keyword} {kind : ItemKind} {c : Contents}

theorem isLine_content (h : IsLine l.raw) : IsLine l.content := h.subset fun _ hc ↦ mem_of_mem_trim hc

theorem filed_of_item {i : Item} (h : IsLine l.raw) (hi : item k kind l = .ok i) : i.Filed kind := by
  have hline := ItemLine.isLine_of_ofText (isLine_content h)
  unfold item at hi
  split at hi
  · cases hi
  · next target hread =>
    split at hi
    · cases hi
    · cases hi
      rw [hread, ItemLine.text, isLine_cons] at hline
      exact ⟨rfl, hline.2, .absent⟩
  · next target value hread =>
    rw [hread] at hline
    split at hi
    · cases hi
    · cases value with
      | none =>
          cases hi
          exact ⟨rfl, hline, .unvalued⟩
      | some v =>
          rw [ItemLine.text, isLine_append, isLine_cons] at hline
          have hstate : ItemState.OneLine (.present (some v)) := by
            intro w hw
            cases hw
            exact hline.2.2
          simp only at hi
          split at hi
          · cases hi
          · split at hi
            · cases hi
            · cases hi
              exact ⟨rfl, hline.1, hstate⟩

theorem filed_of_items {xs : List Item} (h : ∀ l ∈ s.entries, IsLine l.raw)
    (hxs : s.items kind = .ok xs) : ∀ i ∈ xs, i.Filed kind := by
  intro i hi
  obtain ⟨l, hl, hli⟩ := exists_of_mem_mapM hxs hi
  exact filed_of_item (h l hl) hli

theorem isLine_of_name {n : Text} (h : ∀ l ∈ s.entries, IsLine l.raw) (hn : s.name = .ok n) :
    IsLine n := by
  unfold name at hn
  split at hn
  · cases hn
  · next l hl =>
    split at hn
    · cases hn
      exact isLine_content (h l (hl ▸ List.mem_cons_self))
    · cases hn
  · cases hn

theorem isLine_of_mem_values {v : Text} (h : ∀ l ∈ s.entries, IsLine l.raw) (hv : v ∈ s.values) :
    IsLine v := by
  obtain ⟨l, hl, rfl⟩ := List.mem_map.mp hv
  exact isLine_content (h l hl)

theorem isLine_of_mem_executables {x : Executable} (h : ∀ l ∈ s.entries, IsLine l.raw)
    (hx : x ∈ s.executables) : IsLine x.value := by
  obtain ⟨l, hl, rfl⟩ := List.mem_map.mp hx
  exact isLine_content (h l hl)

theorem oneLine_of_setting {x : Setting} (h : IsLine l.raw) (hx : setting l = .ok x) : x.OneLine := by
  unfold setting at hx
  split at hx
  · cases hx
  · next kept hread =>
    split at hx
    · cases hx
    · cases hx
      exact Setting.oneLine_of_ofText? (isLine_content h) hread

theorem oneLine_of_symlink {x : Symlink} (h : IsLine l.raw) (hx : symlink l = .ok x) : x.OneLine := by
  unfold symlink at hx
  split at hx
  · next link hread =>
    cases hx
    exact LinkLine.oneLine_of_ofText? (isLine_content h) hread
  · cases hx

theorem oneLine_of_cronjob {x : CronJob} (h : IsLine l.raw) (hx : cronjob l = .ok x) : x.OneLine := by
  unfold cronjob at hx
  split at hx
  · next job hread =>
    cases hx
    exact CronLine.oneLine_of_ofText? (isLine_content h) hread
  · cases hx

/-- What a section is read as is filed, if its lines are lines. -/
theorem filed_of_contents (hlines : ∀ l ∈ s.lines, IsLine l.raw) (hc : s.contents = .ok c) : c.Filed := by
  have h : ∀ l ∈ s.entries, IsLine l.raw := fun l hl ↦ hlines l (List.mem_of_mem_filter hl)
  have hmapM : ∀ {α : Type} {f : Line → Except Fault α} {P : α → Prop} {xs : List α},
      s.entries.mapM f = .ok xs → (∀ l x, IsLine l.raw → f l = .ok x → P x) → ∀ x ∈ xs, P x := by
    intro α f P xs hxs hf x hx
    obtain ⟨l, hl, hlx⟩ := exists_of_mem_mapM hxs hx
    exact hf l x (h l hl) hlx
  unfold contents at hc
  split at hc
  case h_1 | h_2 =>
    obtain ⟨n, hn, rfl⟩ := map_eq_ok_iff.mp hc
    exact ⟨by decide, isLine_of_name h hn⟩
  case h_3 | h_4 =>
    cases hc
    exact trivial
  case h_5 =>
    cases hc
    exact fun v hv ↦ isLine_of_mem_values h hv
  case h_6 =>
    obtain ⟨xs, hxs, rfl⟩ := map_eq_ok_iff.mp hc
    exact hmapM hxs fun l x hl hx ↦ oneLine_of_setting hl hx
  case h_7 | h_8 | h_9 | h_10 =>
    obtain ⟨xs, hxs, rfl⟩ := map_eq_ok_iff.mp hc
    exact filed_of_items h hxs
  case h_11 =>
    obtain ⟨xs, hxs, rfl⟩ := map_eq_ok_iff.mp hc
    exact hmapM hxs fun l x hl hx ↦ oneLine_of_symlink hl hx
  case h_12 | h_13 =>
    cases hc
    exact fun x hx ↦ isLine_of_mem_executables h hx
  case h_14 =>
    obtain ⟨xs, hxs, rfl⟩ := map_eq_ok_iff.mp hc
    exact hmapM hxs fun l x hl hx ↦ oneLine_of_cronjob hl hx

end Section

/-! ## Accepted documents -/

/-- A document whose items are in the lists of their kinds, without line feeds in its entries. The
description and the readme text may have several lines. -/
structure Document.Filed (d : Document) : Prop where
  kind : IsLine d.kind.word
  name : IsLine d.name
  includes : ∀ i ∈ d.includes, IsLine i
  sysctl : ∀ e ∈ d.sysctl.entries, IsLine e.1 ∧ IsLine e.2
  packages : ∀ i ∈ d.packages, i.Filed .package
  files : ∀ i ∈ d.files, i.Filed .file
  directories : ∀ i ∈ d.directories, i.Filed .directory
  services : ∀ i ∈ d.services, i.Filed .service
  symlinks : ∀ l ∈ d.symlinks, l.OneLine
  commands : ∀ x ∈ d.commands, IsLine x.value
  scripts : ∀ x ∈ d.scripts, IsLine x.value
  cronjobs : ∀ j ∈ d.cronjobs, j.OneLine

namespace Document

variable {cs : List Contents} {d : Document} {t : Text}

theorem exists_identity_of_identity? {kind : DocumentKind} {name : Text}
    (h : identity? cs = some (kind, name)) : .identity kind name ∈ cs := by
  obtain ⟨c, hc, hsome⟩ := List.exists_of_findSome?_eq_some h
  split at hsome
  · cases hsome
    exact hc
  · cases hsome

theorem filed_gather {kind : DocumentKind} {name : Text} (description : Text) (h : ∀ c ∈ cs, c.Filed)
    (hid : identity? cs = some (kind, name)) : (gather kind name description cs).Filed := by
  have hpart : ∀ {α : Type} (f : Contents → List α) (P : α → Prop),
      (∀ c : Contents, c.Filed → ∀ x ∈ f c, P x) → ∀ x ∈ cs.flatMap f, P x := by
    intro α f P hf x hx
    obtain ⟨c, hc, hxc⟩ := List.mem_flatMap.mp hx
    exact hf c (h c hc) x hxc
  have hidentity := h _ (exists_identity_of_identity? hid)
  constructor
  case kind => exact hidentity.1
  case name => exact hidentity.2
  case sysctl =>
    intro e he
    obtain ⟨x, hx, rfl⟩ := List.mem_map.mp (Table.mem_ofList he)
    have hline : x.OneLine := hpart _ Setting.OneLine (fun c hc ↦ by cases c <;> first | exact hc | nofun) x hx
    exact ⟨hline.key, hline.value⟩
  all_goals exact hpart _ _ fun c hc ↦ by cases c <;> first | exact hc | nofun

/-- What is read from a text is filed. -/
theorem filed_of_ofText (h : ofText t = .ok d) : d.Filed := by
  unfold ofText at h
  cases hb : Brinefile.ofText t with
  | error e => simp [hb] at h
  | ok b =>
      rw [hb] at h
      obtain ⟨cs, hread, kind, name, hid, -, rfl⟩ := ofSections_eq_ok_iff.mp h
      refine filed_gather _ (fun c hc ↦ ?_) hid
      obtain ⟨s, hs, hsc⟩ := exists_of_mem_mapM (readSections_eq_ok_iff.mp hread).2 hc
      refine Section.filed_of_contents (fun l hl ↦ ?_) hsc
      exact newline_not_mem_of_mem_lines ((Brinefile.ofText_lines hb).2 s hs l hl).1

end Document

end Saltern
