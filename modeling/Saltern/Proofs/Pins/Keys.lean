import Saltern.Proofs.Project.Planning

/-!
# Keys that documents share

The key of a pin is a document's name, a dot and a package's name, and both names may hold dots. So a
document shares keys with the documents of its own name, whatever their kind, and with those whose name
goes on behind a dot where its own ends. It shares none with any other, and only over a shared key does
one document change a pin of another.
-/

namespace Saltern

/-- Whether packages of two documents have one key: the names are the same, or the longer of the
documents' names ends with what the package of the other starts with. -/
inductive KeysMeet : (name package name' package' : Text) → Prop
  | same (n p : Text) : KeysMeet n p n p
  | longer (n m p : Text) : KeysMeet n (m ++ '.' :: p) (n ++ '.' :: m) p
  | shorter (n m p : Text) : KeysMeet (n ++ '.' :: m) p n (m ++ '.' :: p)

/-- Whether two names differ and neither goes on, behind a dot, where the other ends. -/
structure NamesApart (n n' : Text) : Prop where
  ne : n ≠ n'
  not_longer : ¬ n ++ ['.'] <+: n'
  not_shorter : ¬ n' ++ ['.'] <+: n

variable {n n' p p' : Text}

theorem KeysMeet.pinKey_eq (h : KeysMeet n p n' p') : pinKey n p = pinKey n' p' := by
  cases h with
  | same => rfl
  | longer m => simp [pinKey]
  | shorter m => simp [pinKey]

/-- Two keys are the same exactly where one text is cut at two dots. -/
theorem pinKey_eq_iff : pinKey n p = pinKey n' p' ↔ KeysMeet n p n' p' := by
  refine ⟨fun h ↦ ?_, KeysMeet.pinKey_eq⟩
  rcases List.append_eq_append_iff.mp h with ⟨more, hname, hrest⟩ | ⟨more, hname, hrest⟩
  · cases more with
    | nil =>
        obtain rfl : n' = n := hname.trans (List.append_nil n)
        obtain rfl : p = p' := (List.cons.inj hrest).2
        exact .same n' p
    | cons c m =>
        obtain ⟨rfl, rfl⟩ := List.cons.inj hrest
        subst hname
        exact .longer n m p'
  · cases more with
    | nil =>
        obtain rfl : n = n' := hname.trans (List.append_nil n')
        obtain rfl : p' = p := (List.cons.inj hrest).2
        exact .same n p'
    | cons c m =>
        obtain ⟨rfl, rfl⟩ := List.cons.inj hrest
        subst hname
        exact .shorter n' m p

/-- Names are apart exactly where no package of the one shares its key with one of the other. -/
theorem namesApart_iff : NamesApart n n' ↔ ∀ p p', ¬ KeysMeet n p n' p' := by
  constructor
  · intro h p p' hmeet
    cases hmeet with
    | same => exact h.ne rfl
    | longer _ m => exact h.not_longer ⟨m, List.append_assoc ..⟩
    | shorter _ m => exact h.not_shorter ⟨m, List.append_assoc ..⟩
  · intro h
    refine ⟨?_, ?_, ?_⟩
    · rintro rfl
      exact h [] [] (.same n [])
    · rintro ⟨m, rfl⟩
      apply h (m ++ ['.']) []
      rw [List.append_assoc]
      exact .longer n m []
    · rintro ⟨m, rfl⟩
      apply h [] (m ++ ['.'])
      rw [List.append_assoc]
      exact .shorter n' m []

namespace Document

variable {d d' : Document} {i j : Item} {s : PinStore} {k : Units}

theorem keyOf_eq_iff : d.keyOf i = d'.keyOf j ↔ KeysMeet d.name i.target d'.name j.target := by
  rw [keyOf, keyOf, ← pinKey_eq_iff]
  exact ⟨Text.units_injective, congrArg Text.units⟩

/-- Merging a document's pins changes no pin under a key exactly where the document pins nothing
under it. -/
theorem get?_merge_eq_iff :
    (∀ s : PinStore, (s.merge d.pins.entries).pins.get? k = s.pins.get? k) ↔
      ∀ i ∈ d.packages, i.isPinned = true → d.keyOf i ≠ k := by
  have hlast : d.lastVersion? k = none ↔ ∀ i ∈ d.packages, i.isPinned = true → d.keyOf i ≠ k := by
    rw [← Option.not_isSome_iff_eq_none, isSome_lastVersion?_iff]
    simp only [not_exists, not_and, ne_eq]
  have hmerge : ∀ s : PinStore, (s.merge d.pins.entries).pins.get? k = (d.lastVersion? k).or (s.pins.get? k) := by
    intro s
    rw [PinStore.get?_merge, get?_pins]
  rw [← hlast]
  constructor
  · intro h
    have hempty := (hmerge .empty).symm.trans (h .empty)
    rw [show PinStore.empty.pins.get? k = none from rfl, Option.or_none] at hempty
    exact hempty
  · intro h s
    rw [hmerge, h, Option.none_or]

/-- Packages of two documents share a key exactly where the documents' names and theirs meet. Merging the
pins of the one document leaves the pin of a package of the other alone in every store exactly where none
that it pins shares the key; so it leaves them all alone where the documents' names are apart. -/
theorem merge_apart (d d' : Document) :
    (∀ i j : Item, d.keyOf i = d'.keyOf j ↔ KeysMeet d.name i.target d'.name j.target) ∧
    (∀ j : Item,
      (∀ s : PinStore, (s.merge d.pins.entries).pins.get? (d'.keyOf j) = s.pins.get? (d'.keyOf j)) ↔
        ∀ i ∈ d.packages, i.isPinned = true → ¬ KeysMeet d.name i.target d'.name j.target) ∧
    (NamesApart d.name d'.name → ∀ j : Item, (∀ i : Item, d.keyOf i ≠ d'.keyOf j) ∧
      ∀ s : PinStore, (s.merge d.pins.entries).pins.get? (d'.keyOf j) = s.pins.get? (d'.keyOf j)) := by
  have hkept : ∀ j : Item,
      (∀ s : PinStore, (s.merge d.pins.entries).pins.get? (d'.keyOf j) = s.pins.get? (d'.keyOf j)) ↔
        ∀ i ∈ d.packages, i.isPinned = true → ¬ KeysMeet d.name i.target d'.name j.target := by
    intro j
    simp only [get?_merge_eq_iff, ne_eq, keyOf_eq_iff]
  refine ⟨fun i j ↦ keyOf_eq_iff, hkept, ?_⟩
  intro hapart j
  have hnone := namesApart_iff.mp hapart
  refine ⟨?_, ?_⟩
  · intro i heq
    exact hnone _ _ (keyOf_eq_iff.mp heq)
  · apply (hkept j).mpr
    intro i _ _
    exact hnone _ _

/-- Two roles of which the one's name goes on where the other's ends, but not behind a dot. -/
theorem merge_apart_two_roles :
    let nginx : Item := ⟨.package, "nginx", .present (some "1.24"), 8⟩
    let first : Document := ⟨.role, "web", "d", none, [], .empty, [nginx], [], [], [], [], [], [], []⟩
    let second : Document := ⟨.role, "webmail", "d", none, [], .empty, [nginx], [], [], [], [], [], [], []⟩
    NamesApart first.name second.name ∧ first.keyOf nginx ≠ second.keyOf nginx ∧ ∀ s : PinStore,
      (s.merge first.pins.entries).pins.get? (second.keyOf nginx) = s.pins.get? (second.keyOf nginx) := by
  intro nginx first second
  have hapart : NamesApart first.name second.name := by
    constructor <;> decide +kernel
  obtain ⟨hkeys, hkept⟩ := (merge_apart first second).2.2 hapart nginx
  exact ⟨hapart, hkeys nginx, hkept⟩

/-- A role, a role whose name goes on where the name of the first ends, and an element of the first one's
name: each of the other two overwrites the pin of the first. -/
theorem merge_not_apart :
    let declares (text : Text) := (Document.ofText text).toOption.map fun d ↦ (d.kind, d.name, d.pins.entries)
    let key := Text.units "a.b.c"
    let first : PinStore := PinStore.empty.merge [(key, Text.units "1")]
    declares "%rolename\na\n%description\nd\n%packages\nb.c=1\n" =
        some (.role, "a".toList, [(key, Text.units "1")]) ∧
      declares "%rolename\na.b\n%description\nd\n%packages\nc=2\n" =
        some (.role, "a.b".toList, [(key, Text.units "2")]) ∧
      declares "%elementname\na\n%description\nd\n%packages\nb.c=3\n" =
        some (.element, "a".toList, [(key, Text.units "3")]) ∧
      first.pins.get? key = some (Text.units "1") ∧
      (first.merge [(key, Text.units "2")]).pins.get? key = some (Text.units "2") ∧
      (first.merge [(key, Text.units "3")]).pins.get? key = some (Text.units "3") := by
  intro declares key first
  refine ⟨?_, ?_, ?_, ?_, ?_, ?_⟩ <;> decide +kernel

end Document

end Saltern
