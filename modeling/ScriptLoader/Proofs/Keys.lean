import ScriptLoader.Proofs.Records
import ScriptLoader.Proofs.Referent
import ScriptLoader.Proofs.Termination

/-!
One file, one path. All anchored names of a file are resolved to the same path, however they are
spelled, as long as they agree on the root: a name that begins with exactly two slashes keeps both
of them. So a module that does not change runs at most once for each of the two roots.
-/

namespace ScriptLoader

namespace Event

variable {algorithm : Digest.Algorithm} {path : String} {bytes : ByteArray}

open Loader (startedPaths)

/-- The newest start of a module that was started. -/
theorem exists_newest_start {journal : List Event} (h : path ∈ startedPaths journal) :
    ∃ between depth earlier, journal = between ++ started path depth :: earlier ∧
      ∀ event ∈ between, ∀ depth, event ≠ started path depth := by
  induction journal with
  | nil => cases h
  | cons event rest ih =>
      by_cases hstart : ∃ depth, event = started path depth
      · obtain ⟨depth, rfl⟩ := hstart
        exact ⟨[], depth, rest, rfl, by simp⟩
      · have hrest : path ∈ startedPaths rest := by
          cases event with
          | started other depth =>
              rcases List.mem_cons.mp h with rfl | h
              · exact (hstart ⟨depth, rfl⟩).elim
              · exact h
          | _ => exact h
        obtain ⟨between, depth, earlier, rfl, hbetween⟩ := ih hrest
        refine ⟨event :: between, depth, earlier, rfl, fun other hmem depth heq => ?_⟩
        rcases List.mem_cons.mp hmem with rfl | hmem
        · exact hstart ⟨depth, heq⟩
        · exact hbetween other hmem depth heq

/-- The file of a module was never found changed, nor was the module dropped. -/
structure Settled (path : String) (bytes : ByteArray) (journal : List Event) : Prop where
  kept : ∀ event ∈ journal, event ≠ reset ∧ event ≠ forgotten path
  same : ∀ content signature, checked path content signature ∈ journal → content = some bytes

theorem Settled.tail {event : Event} {earlier : List Event}
    (h : Settled path bytes (event :: earlier)) : Settled path bytes earlier where
  kept other hmem := h.kept other (List.mem_cons_of_mem _ hmem)
  same content signature hmem := h.same content signature (List.mem_cons_of_mem _ hmem)

/-- Every check found the signature of these bytes. -/
theorem Settled.signature_eq {journal : List Event} {content : Option ByteArray}
    {signature : Option Signature} (h : Settled path bytes journal)
    (justified : AllJustified algorithm journal)
    (hmem : checked path content signature ∈ journal) :
    signature = some (algorithm.sign bytes) := by
  have hcontent := h.same content signature hmem
  obtain ⟨later, earlier, rfl⟩ := List.append_of_mem hmem
  obtain ⟨⟨hsignature, -⟩, -⟩ := justified.of_append
  rw [hsignature, hcontent]
  rfl

/-- After a start the file would have to be found changed before the next one. -/
theorem Settled.not_mem_startedPaths {journal : List Event} {depth : Nat}
    (h : Settled path bytes (started path depth :: journal))
    (justified : AllJustified algorithm (started path depth :: journal)) :
    path ∉ startedPaths journal := by
  intro hmem
  obtain ⟨between, older, earlier, rfl, hbetween⟩ := exists_newest_start hmem
  have huneventful : ∀ event ∈ between, event.Uneventful path := by
    intro event hevent
    obtain ⟨hreset, hforgotten⟩ := h.kept event (by simp [hevent])
    exact ⟨hreset, hforgotten, hbetween event hevent⟩
  have restart : AllJustified algorithm
      ([] ++ started path depth :: (between ++ started path older :: earlier)) := justified
  obtain ⟨content, content', signature, signature', rest, before, rfl, rfl, hdiffer⟩ :=
    signatures_of_restart restart huneventful
  have hthen : signature = some (algorithm.sign bytes) := by
    apply h.signature_eq justified
    show checked path content signature ∈ _
    simp
  have hnow : signature' = some (algorithm.sign bytes) := by
    apply h.signature_eq justified
    show checked path content' signature' ∈ _
    simp
  simp [hnow, hthen] at hdiffer

/-- Such a module was started at most once. -/
theorem Settled.count_le_one {journal : List Event} (h : Settled path bytes journal)
    (justified : AllJustified algorithm journal) : (startedPaths journal).count path ≤ 1 := by
  induction journal with
  | nil => simp
  | cons event rest ih =>
      have hrest := ih h.tail justified.2
      cases event with
      | started other depth =>
          rw [show startedPaths (started other depth :: rest) = other :: startedPaths rest from rfl]
          by_cases hother : other = path
          · subst hother
            rw [List.count_cons_self,
              List.count_eq_zero_of_not_mem (h.not_mem_startedPaths justified)]
          · rwa [List.count_cons_of_ne hother]
      | _ => exact hrest

end Event

namespace Machine

variable {machine : Machine} {name : String} {place : Place}

/-- An anchored name denotes a regular file if it leads there, once a home marker is expanded. -/
structure Denotes (machine : Machine) (name : String) (place : Place) : Prop where
  anchored : Path.isAnchored name = true
  leads : ∃ expanded, Path.expandHome? machine.toStandpoint name = some expanded ∧
    machine.locate expanded = .ok place
  isFile : ∃ content, machine.files.node? place = some (.file content)

/-- The root that an anchored name spells: two slashes if exactly two stand in front of the path
that it stands for, and else one. -/
def nameRoot (machine : Machine) (name : String) : String :=
  ((Path.expandHome? machine.toStandpoint name).map machine.rootOf).getD ""

/-- The path that a name of a file becomes: it spells the file's place behind the root of the name,
and leads there as well. -/
theorem Denotes.canonical_eq (h : machine.Denotes name place)
    (absolute : Path.isAbsolute machine.workingDirectory = true)
    (writable : '\x00' ∉ machine.workingDirectory.toList) :
    Resolve.canonical machine name = .ok (Path.spell (machine.nameRoot name) place) ∧
      machine.locate (Path.spell (machine.nameRoot name) place) = .ok place := by
  obtain ⟨expanded, hexpanded, hlocate⟩ := h.leads
  obtain ⟨hspell, hthere⟩ := locate_absolutize absolute writable hlocate
  have hroot : machine.nameRoot name = machine.rootOf expanded := by
    rw [nameRoot, hexpanded, Option.map_some, Option.getD_some]
  rw [hroot, ← hspell]
  refine ⟨?_, hthere⟩
  simp only [Resolve.canonical, Path.canonicalize?, hexpanded, Option.map_some]

/-- Whatever the directories of the search path are and whoever asks for it, an anchored name of a
file is resolved to its path. -/
theorem Denotes.resolve_eq (h : machine.Denotes name place)
    (absolute : Path.isAbsolute machine.workingDirectory = true)
    (writable : '\x00' ∉ machine.workingDirectory.toList) (directories : List String)
    (caller : String) :
    Resolve.resolve machine directories name caller =
      .ok (Path.spell (machine.nameRoot name) place) := by
  obtain ⟨hcanonical, hthere⟩ := h.canonical_eq absolute writable
  obtain ⟨content, hcontent⟩ := h.isFile
  have present : machine.isPresent (Path.spell (machine.nameRoot name) place) = true := by
    rw [isPresent, node, hthere]
    simp only [hcontent]
    rfl
  rw [Resolve.resolve, if_pos h.anchored, hcanonical]
  exact if_pos present

theorem Denotes.isRoot_nameRoot (h : machine.Denotes name place)
    (absolute : Path.isAbsolute machine.workingDirectory = true) :
    Path.IsRoot (machine.nameRoot name) := by
  obtain ⟨expanded, hexpanded, -⟩ := h.leads
  rw [nameRoot, hexpanded]
  exact isRoot_rootOf absolute expanded

theorem Denotes.plain (h : machine.Denotes name place)
    (absolute : Path.isAbsolute machine.workingDirectory = true) :
    ∀ other ∈ place, Path.Plain other := by
  obtain ⟨expanded, -, hlocate⟩ := h.leads
  rw [← destination_of_locate absolute hlocate]
  exact Path.plain_destination _

end Machine

namespace Loader

/-- Two anchored names of one regular file are resolved, however they are spelled, to one path each
that leads to the file, and to the same path if and only if they agree on the root. In every run
from a new loader, whatever the modules do, the module at such a path is begun at most once if every
check of the path finds the same bytes and the module is not dropped from the cache. -/
theorem names_of_file_share_path {machine : Machine}
    (absolute : Path.isAbsolute machine.workingDirectory = true)
    (writable : '\x00' ∉ machine.workingDirectory.toList) {first second : String} {place : Place}
    (h₁ : machine.Denotes first place) (h₂ : machine.Denotes second place) :
    ∃ path path',
      (∀ directories caller,
        Resolve.resolve machine directories first caller = .ok path ∧
        Resolve.resolve machine directories second caller = .ok path') ∧
      (machine.locate path = .ok place ∧ machine.locate path' = .ok place) ∧
      (path = path' ↔ machine.nameRoot first = machine.nameRoot second) ∧
      ∀ (σ α β : Type) (executor : Executor σ) (program : Program σ α)
        (algorithm : Digest.Algorithm) (baseline : List String) (host : σ) (active : List String)
        (left : Program σ β) (now : Loader σ) (bytes : ByteArray),
        Reaches executor program (start machine algorithm baseline host) active left now →
        (∀ event ∈ now.journal, event ≠ .reset ∧ event ≠ .forgotten path) →
        (∀ content signature, .checked path content signature ∈ now.journal →
          content = some bytes) →
        (startedPaths now.journal).count path ≤ 1 := by
  refine ⟨Path.spell (machine.nameRoot first) place, Path.spell (machine.nameRoot second) place,
    fun directories caller => ?_, ?_, ?_, ?_⟩
  · exact ⟨h₁.resolve_eq absolute writable directories caller,
      h₂.resolve_eq absolute writable directories caller⟩
  · exact ⟨(h₁.canonical_eq absolute writable).2, (h₂.canonical_eq absolute writable).2⟩
  · refine ⟨fun heq => ?_, fun heq => by rw [heq]⟩
    have plain := h₁.plain absolute
    rw [← Path.root_spell (h₁.isRoot_nameRoot absolute) plain, heq,
      Path.root_spell (h₂.isRoot_nameRoot absolute) plain]
  · intro σ α β executor program algorithm baseline host active left now bytes reaches kept same
    have faithful := (faithful_start machine algorithm baseline host).reaches reaches
    exact Event.Settled.count_le_one ⟨kept, same⟩ faithful.justified

def loadingBoth (first second : String) : Program Unit Script.Value :=
  .load false first fun _ => .load false second .done

def homelyMachine : Machine :=
  ⟨⟨"/w", "/h/", []⟩, .build [["w"], ["d", "h"]] [(["b", "h"], .ofText "")]⟩

/-- `/h/b` has three slashes in front in one spelling, and is behind the home directory in the
other. -/
theorem names_of_file_share_path_homelyMachine :
    homelyMachine.Denotes "~/d/.././b" ["b", "h"] ∧ homelyMachine.Denotes "///h//b" ["b", "h"] ∧
      homelyMachine.nameRoot "~/d/.././b" = homelyMachine.nameRoot "///h//b" ∧
      Resolve.resolve homelyMachine [] "~/d/.././b" "" =
        Resolve.resolve homelyMachine [] "///h//b" "" ∧
      ∃ (outcome : Except Fault Script.Value) (now : Loader Unit),
        Reaches silentModules (loadingBoth "~/d/.././b" "///h//b")
          (start homelyMachine .md5 [] ()) [] (.done outcome) now ∧
        (startedPaths now.journal).count "/h/b" = 1 := by
  have h₁ : homelyMachine.Denotes "~/d/.././b" ["b", "h"] :=
    ⟨by rfl, ⟨"/h/d/.././b", by decide +kernel, by decide +kernel⟩, ⟨_, by rfl⟩⟩
  have h₂ : homelyMachine.Denotes "///h//b" ["b", "h"] :=
    ⟨by rfl, ⟨"///h//b", by decide +kernel, by decide +kernel⟩, ⟨_, by rfl⟩⟩
  have hroots : homelyMachine.nameRoot "~/d/.././b" = homelyMachine.nameRoot "///h//b" := by
    decide +kernel
  obtain ⟨path, path', hpaths, -, hsame, honce⟩ :=
    names_of_file_share_path (by rfl) (by decide) h₁ h₂
  obtain ⟨hfirst, hsecond⟩ := hpaths [] ""
  obtain rfl := hsame.mpr hroots
  obtain rfl : path = "/h/b" := by
    have hresolve : Resolve.resolve homelyMachine [] "///h//b" "" = .ok "/h/b" := by
      decide +kernel
    cases hresolve.symm.trans hsecond
    rfl
  have hrun : ((run silentModules 1 (loadingBoth "~/d/.././b" "///h//b")
      (start homelyMachine .md5 [] ())).map fun result => result.2.journal) =
      some [.skipped "/h/b",
        .checked "/h/b" (some ⟨#[]⟩) (some (Digest.Algorithm.sign .md5 ⟨#[]⟩)), .started "/h/b" 1,
        .checked "/h/b" (some ⟨#[]⟩) (some (Digest.Algorithm.sign .md5 ⟨#[]⟩))] := by
    decide +kernel
  obtain ⟨⟨outcome, now⟩, hend, hjournal⟩ := Option.map_eq_some_iff.mp hrun
  replace hjournal : now.journal = _ := hjournal
  have reaches := (runs_of_run hend).reaches
  have hle := honce Unit Script.Value Script.Value silentModules _ .md5 [] () [] _ now ⟨#[]⟩ reaches
    (by simp [hjournal]) (by simp [hjournal])
  refine ⟨h₁, h₂, hroots, hfirst.trans hsecond.symm, outcome, now, reaches, ?_⟩
  have hmem : "/h/b" ∈ startedPaths now.journal := by
    rw [hjournal]
    decide
  have hpos := List.count_pos_iff.mpr hmem
  omega

def singleFile : Machine :=
  ⟨⟨"/", "", []⟩, .build [] [(["a"], .ofText "")]⟩

/-- Two slashes in front of an anchored name are a root of their own: the file at `/a` has another
path then, and the module runs again although nothing has changed. -/
theorem double_slash_splits_file :
    (¬∀ (machine : Machine) (first second : String) (place : Place) (directories : List String)
      (caller : String), Path.isAbsolute machine.workingDirectory = true →
      '\x00' ∉ machine.workingDirectory.toList → machine.Denotes first place →
      machine.Denotes second place →
      Resolve.resolve machine directories first caller =
        Resolve.resolve machine directories second caller) ∧
    (run silentModules 1 (loadingBoth "/a" "//a") (start singleFile .md5 [] ())).map
      (fun result => startedPaths result.2.journal) = some ["//a", "/a"] := by
  constructor
  · intro h
    have h₁ : singleFile.Denotes "/a" ["a"] :=
      ⟨by rfl, ⟨"/a", by decide +kernel, by decide +kernel⟩, ⟨_, by rfl⟩⟩
    have h₂ : singleFile.Denotes "//a" ["a"] :=
      ⟨by rfl, ⟨"//a", by decide +kernel, by decide +kernel⟩, ⟨_, by rfl⟩⟩
    have hsame := h singleFile "/a" "//a" ["a"] [] "" (by rfl) (by decide) h₁ h₂
    have hdiffer : Resolve.resolve singleFile [] "/a" "" ≠
        Resolve.resolve singleFile [] "//a" "" := by
      decide +kernel
    exact hdiffer hsame
  · decide +kernel

end Loader

end ScriptLoader
