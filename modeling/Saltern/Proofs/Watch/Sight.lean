import Saltern.Proofs.Files.Within
import Saltern.Proofs.Watch.Interleaving

/-!
# What a watch sees

In which directories a watch looks and which files it minds is settled when it starts, while every run looks
for its configuration and its source anew. A configuration under a usual name is always seen; one that is
asked for is seen where it lies beside the project's files or beside the source; and a source is seen as
long as it is the one that the watch started with.
-/

namespace Saltern

namespace EventLoop

theorem schedule_ne (l : EventLoop) : l.schedule ≠ l := by
  intro h
  have hissued : l.issued + 1 = l.issued := congrArg issued h
  exact Nat.succ_ne_self _ hissued

end EventLoop

namespace Session

variable {s : Session} {p : Path}

/-- Whether a watch looks into the directory of a file, and whatever happens to the file has a run
follow. -/
def Sees (s : Session) (p : Path) : Prop :=
  p.parent ∈ s.watch.directories ∧
    ∀ event path, s.watch.root.resolve path = p → (s.step (.change event path)).loop = s.loop.schedule

/-- What is seen is what is minded in a directory that is looked into. -/
theorem sees_iff : s.Sees p ↔ p.parent ∈ s.watch.directories ∧ s.watch.minds p = true := by
  refine and_congr_right fun _ ↦ ⟨fun h ↦ ?_, fun h event path hpath ↦ ?_⟩
  · have hstep := h [] p.text (Path.resolve_text _ p)
    rw [step, Path.resolve_text] at hstep
    by_contra hno
    exact s.loop.schedule_ne (hstep.symm.trans (if_neg hno))
  · rw [step, hpath]
    exact if_pos h

instance (s : Session) (p : Path) : Decidable (s.Sees p) := decidable_of_iff _ sees_iff.symm

/-- What a watch sees is settled when it starts. -/
theorem sees_after (s : Session) (hs : List Happening) : (s.after hs).Sees p ↔ s.Sees p := by
  obtain ⟨hroot, hrequest, hsource⟩ := settings_after s hs
  rw [sees_iff, sees_iff]
  simp only [Watch.directories, Watch.minds, Watch.isConfig, hroot, hrequest, hsource]

end Session

namespace Watch

open Project

variable {root : Path} {q : Request} {delay : Int} {speaker whoRuns : Speaker} {ws : Workspace} {w : Watch}
  {p : Path} {t : FileTree}

theorem mem_directories : p ∈ w.directories ↔ p = w.root ∨ p = w.source.parent := by
  rw [directories]
  split
  · next h => rw [List.mem_singleton, h, or_self]
  · rw [List.mem_cons, List.mem_singleton]

/-- A watch starts with the project, the request, and the source that the configuration has then. -/
theorem settings_of_start (h : ((start root q delay speaker whoRuns).run ws).report.result = .ok w) :
    w.root = root ∧ w.request = q ∧ ∃ found c, ((loadConfig root q).run ws).report.result = .ok (found, c) ∧
      w.source = q.sourcePath root c := by
  rw [start] at h
  obtain ⟨⟨found, c⟩, hload, hrest⟩ := Action.exists_of_bind_ok h
  obtain ⟨-, -, hlast⟩ := Action.exists_of_bind_ok hrest
  cases hlast
  exact ⟨rfl, rfl, found, c, hload, rfl⟩

theorem minds_source (w : Watch) : w.minds w.source = true := by
  rw [minds, decide_eq_true rfl]
  rfl

/-- A configuration file that counts is of the sort that a watch minds. -/
theorem isConfig_of_configFile (h : configFile w.root w.request t = .ok (some p)) : w.isConfig p = true := by
  rw [configFile] at h
  rw [isConfig]
  cases hasked : w.request.configFile? w.root with
  | some c =>
      rw [hasked] at h
      dsimp only at h ⊢
      split at h
      · cases h
        exact decide_eq_true rfl
      · cases h
  | none =>
      rw [hasked] at h
      obtain ⟨n, hn, rfl⟩ := List.mem_map.mp (List.mem_of_find?_eq_some (Except.ok.inj h))
      have hnames : ∀ n ∈ Config.fileNames, IsPart n ∧ Text.startsWith n "brine.config." = true := by decide
      obtain ⟨hpart, hstarts⟩ := hnames n hn
      have hname : (w.root.child n hpart).name = n := by simp [Path.name, Path.child]
      rw [Path.resolve_eq_child _ hpart]
      dsimp only
      rw [Path.parent_child, hname, hstarts, decide_eq_true rfl]
      rfl

/-- One that was found, not asked for, lies at the top of the project. -/
theorem parent_of_configFile (hasked : q.configFile? root = none) (h : configFile root q t = .ok (some p)) :
    p.parent = root := by
  rw [configFile, hasked] at h
  obtain ⟨n, hn, rfl⟩ := List.mem_map.mp (List.mem_of_find?_eq_some (Except.ok.inj h))
  have hpart : ∀ n ∈ Config.fileNames, IsPart n := by decide
  rw [Path.resolve_eq_child _ (hpart n hn), Path.parent_child]

/-- Whatever has happened to a watch since its start, and whatever the files are now: it sees the
configuration file that a run would load where that lies at the top of the project or beside the source
that the watch started with, as every one does that is not asked for; and it sees the source that a run
would compile where that is the one it started with, as it is where one is asked for, or else is a
configuration file in one of its directories. -/
theorem sees_after_start (h : ((start root q delay speaker whoRuns).run ws).report.result = .ok w)
    (hs : List Happening) :
    (∃ found c, ((loadConfig root q).run ws).report.result = .ok (found, c) ∧
      w.source = q.sourcePath root c) ∧
    ∀ ws' : Workspace,
      (∀ p, configFile root q ws'.tree = .ok (some p) →
        (((Session.start w).after hs).Sees p ↔ p.parent = root ∨ p.parent = w.source.parent) ∧
          (q.configFile? root = none → ((Session.start w).after hs).Sees p)) ∧
      ∀ found c, ((loadConfig root q).run ws').report.result = .ok (found, c) →
        (((Session.start w).after hs).Sees (q.sourcePath root c) ↔
          q.sourcePath root c = w.source ∨
            w.isConfig (q.sourcePath root c) = true ∧ (q.sourcePath root c).parent ∈ w.directories) ∧
          (q.sourceFile.isSome = true → ((Session.start w).after hs).Sees (q.sourcePath root c)) := by
  obtain ⟨rfl, rfl, found₀, c₀, hload, hsource⟩ := settings_of_start h
  have hsees : ∀ p, ((Session.start w).after hs).Sees p ↔ p.parent ∈ w.directories ∧ w.minds p = true :=
    fun p ↦ (Session.sees_after _ hs).trans Session.sees_iff
  have hstarted : ∀ p, p = w.source → ((Session.start w).after hs).Sees p := by
    rintro p rfl
    exact (hsees _).mpr ⟨mem_directories.mpr (.inr rfl), w.minds_source⟩
  refine ⟨⟨found₀, c₀, hload, hsource⟩, fun ws' ↦ ⟨fun p hp ↦ ?_, fun found c hc ↦ ?_⟩⟩
  · have hminds : w.minds p = true := by rw [minds, isConfig_of_configFile hp, Bool.or_true]
    have hiff : ((Session.start w).after hs).Sees p ↔ p.parent = w.root ∨ p.parent = w.source.parent := by
      rw [hsees, mem_directories, and_iff_left hminds]
    exact ⟨hiff, fun hasked ↦ hiff.mpr (.inl (parent_of_configFile hasked hp))⟩
  · refine ⟨⟨fun hseen ↦ ?_, ?_⟩, fun hasked ↦ hstarted _ ?_⟩
    · obtain ⟨hdirectory, hminds⟩ := (hsees _).mp hseen
      rw [minds, Bool.or_eq_true, decide_eq_true_eq] at hminds
      exact hminds.imp_right fun hconfig ↦ ⟨hconfig, hdirectory⟩
    · rintro (hsame | ⟨hconfig, hdirectory⟩)
      · exact hstarted _ hsame
      · exact (hsees _).mpr ⟨hdirectory, by rw [minds, hconfig, Bool.or_true]⟩
    · obtain ⟨f, hf⟩ := Option.isSome_iff_exists.mp hasked
      rw [hsource, Request.sourcePath, Request.sourcePath, hf]
      rfl

/-- A configuration at the top of the project and a source below it are seen, also in a run after the
configuration has changed. -/
theorem sees_after_start_below :
    let settings : Text := "export default \x7b\"sourceFile\": \"roles/web.brine\"\x7d;\n"
    let t := sourceTree [] [(.ofText "/brine.config.mjs", .file settings)]
    ∃ w, ((start .top .plain 150 .watch .runner).run (.ofTree t)).report.result = .ok w ∧
      let s := (Session.start w).after [.timer 0 t, .change "change" "/brine.config.mjs"]
      s.Sees (.ofText "/brine.config.mjs") ∧ s.Sees (.ofText "/roles/web.brine") := by
  intro settings t
  have hsource : ((loadConfig .top .plain).run (.ofTree t)).report.result.map
      (fun x ↦ Request.plain.sourcePath .top x.2) = .ok (.ofText "/roles/web.brine") := by decide +kernel
  have hfound : configFile .top .plain t = .ok (some (.ofText "/brine.config.mjs")) := by decide +kernel
  have hok : ((start .top .plain 150 .watch .runner).run (.ofTree t)).report.result.isOk = true := by
    decide +kernel
  cases h : ((start .top .plain 150 .watch .runner).run (.ofTree t)).report.result with
  | error e =>
      rw [h] at hok
      cases hok
  | ok w =>
      obtain ⟨⟨found, c, hload, hstarted⟩, hall⟩ :=
        sees_after_start h [.timer 0 t, .change "change" "/brine.config.mjs"]
      obtain ⟨hconfig, hcompiled⟩ := hall (.ofTree t)
      rw [hload] at hsource
      have hpath : Request.plain.sourcePath .top c = .ofText "/roles/web.brine" := Except.ok.inj hsource
      refine ⟨w, rfl, (hconfig _ hfound).2 rfl, ?_⟩
      rw [← hpath]
      exact (hcompiled found c hload).1.mpr (.inl hstarted.symm)

/-- A configuration that is asked for in a directory of its own is not seen, though a watch minds it; nor is
a source that the configuration has come to name since the start. -/
theorem sees_after_start_elsewhere :
    let asked : Request := ⟨none, some "conf/brine.config.mjs", false⟩
    let plain : Text := "export default \x7b\x7d;\n"
    let retargeted : Text := "export default \x7b\"sourceFile\": \"web.brine\"\x7d;\n"
    let t := sourceTree [] [(.ofText "/conf/brine.config.mjs", .file plain)]
    let before := sourceTree [] [(.ofText "/brine.config.ts", .file plain)]
    let later := sourceTree [] [(.ofText "/brine.config.ts", .file retargeted)]
    (configFile .top asked t = .ok (some (.ofText "/conf/brine.config.mjs")) ∧
      ((start .top asked 150 .watch .runner).run (.ofTree t)).report.result.map
        (fun w ↦ (decide ((Session.start w).Sees (.ofText "/conf/brine.config.mjs")),
          w.minds (.ofText "/conf/brine.config.mjs"))) = .ok (false, true)) ∧
    ((loadConfig .top .plain).run (.ofTree later)).report.result.map
        (fun x ↦ Request.plain.sourcePath .top x.2) = .ok (.ofText "/web.brine") ∧
      ((start .top .plain 150 .watch .runner).run (.ofTree before)).report.result.map
        (fun w ↦ decide ((Session.start w).Sees (.ofText "/web.brine"))) = .ok false := by
  decide +kernel

end Watch

end Saltern
