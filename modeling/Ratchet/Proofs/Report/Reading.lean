import Ratchet.Proofs.Backup.Unreadable
import Ratchet.Proofs.Report
import Ratchet.Proofs.Settings.Contents

/-!
Report files with any bytes.

A report file that is missing, that is no text, no JSON or no report holds no report, and whoever asks for it is told so.
There are two exceptions, the same as with the manifests of backups (`Archive.Amiss`): a text of JSON that is no map, and
one that nests too deeply. Such a file stops whoever reads it, and a call for it is answered as an internal error.
-/

namespace Ratchet.Report

open Act Server

variable {w : World} {path project : String} {c : ByteArray} {defaults : Defaults} {s : Settings} {t : Tracker}
  {call : Server.Call}

/-! ### Reading -/

/-- Whether a path leads to a file whose bytes are a text of JSON that is no map, or that nests too deeply. -/
def Spoilt (w : World) (path : String) : Prop := ∃ c, w.tree.read (w.located path) = .ok c ∧ Archive.Amiss c

/-- What the bytes of a file come to; bytes that are no text hold no report. -/
def ofBytes (c : ByteArray) : Except Fault (Option Report) :=
  match textOf c with
  | .ok s => ofText s
  | .error _ => .ok none

lemma runOn_load_bytes (h : w.tree.read (w.located path) = .ok c) : runOn w (load path) = (ofBytes c, w) := by
  obtain ⟨-, p, hstat⟩ := Tree.read_eq_ok.1 h
  have hfile : w.tree.isFile (w.located path) = true := Tree.isFile_iff.2 ⟨p, c, hstat⟩
  have htext := runOn_readText_bytes h
  rw [ofBytes]
  rcases ht : textOf c with f | s
  · obtain rfl := textOf_encoding ht
    have hvalue : (Fault.encoding c).kind.isValue = true := by
      show FaultKind.isValue (.other "UnicodeDecodeError") = true
      decide
    rw [load, runOn_bind_ok _ (runOn_isFile path), hfile, if_pos rfl, runOn_outcome_bind, htext, ht]
    dsimp only
    rw [if_pos (Bool.or_eq_true_iff.2 (.inr hvalue)), runOn_pure]
  · rw [ht] at htext
    exact runOn_load_file hfile htext

lemma ofBytes_text {s : String} (h : Text.decode? c = some s) : ofBytes c = ofText (Archive.unified s) := by
  rw [ofBytes, textOf, h]
  rfl

/-- A path that leads to no file leads to no report. -/
lemma runOn_load_error {f : Fault} (h : w.tree.read (w.located path) = .error f) : runOn w (load path) = (.ok none, w) := by
  refine runOn_load_missing (Bool.eq_false_iff.2 fun hfile => ?_)
  obtain ⟨c, hread, -⟩ := Tree.read_of_isFile hfile
  exact absurd (h.symm.trans hread) nofun

lemma ofBytes_amiss (h : Archive.Amiss c) : ∃ f, ofBytes c = .error f := by
  rcases h with @⟨s, d, hs, hread, hmap⟩ | @⟨s, hs, hread⟩
  · refine ⟨.badType, ?_⟩
    rw [ofBytes_text hs, ofText, hread]
    cases d with
    | map es => exact absurd rfl (hmap es)
    | _ => rfl
  · exact ⟨.tooDeep, by rw [ofBytes_text hs, ofText, hread]⟩

/-- Bytes come to a report or to none, unless they are amiss. -/
lemma ofBytes_of_not_amiss (h : ¬ Archive.Amiss c) : ∃ r, ofBytes c = .ok r := by
  rcases Archive.not_amiss_cases h with hs | ⟨s, hs, ⟨e, he, hread⟩ | ⟨es, hread⟩⟩
  · exact ⟨none, by rw [ofBytes, textOf, hs]⟩
  · rw [ofBytes_text hs, ofText, hread]
    cases e with
    | tooDeep => exact absurd rfl he
    | malformed | longNumber => exact ⟨none, rfl⟩
  · rw [ofBytes_text hs, ofText, hread]
    dsimp only
    rcases ofEntries es with r | issues
    · exact ⟨some r, rfl⟩
    · exact ⟨none, rfl⟩

/-- What becomes of reading a report: it fails exactly when the file is spoilt, and nothing changes. -/
lemma load_cases (w : World) (path : String) :
    (Spoilt w path ∧ ∃ f, runOn w (load path) = (.error f, w)) ∨
      (¬ Spoilt w path ∧ ∃ r, runOn w (load path) = (.ok r, w)) := by
  rcases hread : w.tree.read (w.located path) with f | c
  · refine .inr ⟨?_, none, runOn_load_error hread⟩
    rintro ⟨c, hc, -⟩
    exact absurd (hread.symm.trans hc) nofun
  · rw [runOn_load_bytes hread]
    by_cases hamiss : Archive.Amiss c
    · obtain ⟨f, hf⟩ := ofBytes_amiss hamiss
      exact .inl ⟨⟨c, hread, hamiss⟩, f, by rw [hf]⟩
    · obtain ⟨r, hr⟩ := ofBytes_of_not_amiss hamiss
      refine .inr ⟨?_, r, by rw [hr]⟩
      rintro ⟨c', hc', hamiss'⟩
      obtain rfl := Except.ok.inj (hread.symm.trans hc')
      exact hamiss hamiss'

/-! ### Calls -/

/-- A call for the report of a project. -/
structure Asks (call : Server.Call) (project : String) : Prop where
  method : call.method = "GET"
  route : Route.ofPath? call.path = some .report
  query : call.query.reverse.lookup "project_path" = some project
  nonempty : project ≠ ""

/-- The answer to a call for a report: a fault that nobody reckons with is an internal error. -/
def reply : Except Fault (Option Report) → Reply
  | .ok (some r) => .report r
  | .ok none => .refusal 404 "No report available"
  | .error _ => .internalError

/-- A call for the report of a project whose settings can be loaded is answered with what its report file comes to. -/
lemma runOn_handle (h : Asks call project) (hs : (runOn w (Settings.load defaults project none [])).1 = .ok s) :
    runOn (t, w) (handle defaults call) = (.ok (reply (runOn w (load (s.reportFile w.here))).1), (t, w)) := by
  have hsettings : runOn w (Settings.load defaults project none []) = (.ok s, w) := Prod.ext hs (Settings.looks_load w)
  have hget : runOn w (getReport defaults t.last (some project)) =
      ((runOn w (load (s.reportFile w.here))).1.map fun r => reply (.ok r), w) := by
    rw [getReport]
    dsimp only
    rw [if_neg (by simpa using h.nonempty), answering, runOn_outcome_bind, hsettings]
    dsimp only
    rw [runOn_bind_ok _ runOn_get, runOn_bind]
    rcases load_cases w (s.reportFile w.here) with ⟨-, f, hload⟩ | ⟨-, r, hload⟩
    · rw [hload]
      rfl
    · rw [hload]
      cases r <;> rfl
  have hanswer : runOn (t, w) (answer defaults call .report) =
      ((runOn w (load (s.reportFile w.here))).1.map fun r => reply (.ok r), (t, w)) := by
    rw [answer, h.query]
    dsimp only
    rw [runOn_bind_ok _ (runOn_kept t), runOn_beside, hget]
  rw [handle, h.route]
  dsimp only
  rw [if_neg (by simp [h.method, Route.method]), runOn_outcome_bind, hanswer]
  rcases (runOn w (load (s.reportFile w.here))).1 with f | r
  · rfl
  · rfl

/-- **A report file is read without a fault exactly when it is not spoilt, and a call for it is answered accordingly.**
Reading comes to a report or to none, and the answer holds the report or says that there is none; a spoilt file is an
internal error. -/
theorem load_iff_not_spoilt (path : String) (w : World) :
    ((∃ r, (runOn w (load path)).1 = .ok r) ↔ ¬ Spoilt w path) ∧
    ∀ defaults call project (t : Tracker) (s : Settings), Asks call project →
      (runOn w (Settings.load defaults project none [])).1 = .ok s → s.reportFile w.here = path →
      ∃ a, (runOn (t, w) (handle defaults call)).1 = .ok a ∧ (Spoilt w path → a = .internalError) ∧
        (¬ Spoilt w path → a = .refusal 404 "No report available" ∨
          ∃ r, (runOn w (load path)).1 = .ok (some r) ∧ a = .report r ∧ (r.sendable = true → a.status = 200)) := by
  have hcases := load_cases w path
  refine ⟨?_, fun defaults call project t s hasks hs hpath => ⟨reply (runOn w (load path)).1, ?_, ?_⟩⟩
  · rcases hcases with ⟨hspoilt, f, hload⟩ | ⟨hspoilt, r, hload⟩
    · refine iff_of_false (fun ⟨r, hr⟩ => ?_) (not_not.2 hspoilt)
      rw [hload] at hr
      exact absurd hr nofun
    · exact iff_of_true ⟨r, by rw [hload]⟩ hspoilt
  · rw [runOn_handle hasks hs, hpath]
  · rcases hcases with ⟨hspoilt, f, hload⟩ | ⟨hspoilt, r, hload⟩
    · rw [hload]
      exact ⟨fun _ => rfl, fun h => absurd hspoilt h⟩
    · rw [hload]
      refine ⟨fun h => absurd h hspoilt, fun _ => ?_⟩
      rcases r with _ | r
      · exact .inl rfl
      · exact .inr ⟨r, rfl, rfl, fun hsend => by rw [reply, Reply.report, if_pos hsend]; rfl⟩

/-- A project with a report file of this text. -/
def projectWith (text : String) : World where
  tree := (Tree.empty.put ["w"] .directory).put ["w", "remediation-report.json"] (.file (Text.encode text))

/-- A call for the report of that project. -/
def askFor : Server.Call := { method := "GET", path := "/api/report", query := [("project_path", "/w")] }

lemma asks_askFor : Asks askFor "/w" := ⟨rfl, by decide, rfl, by decide⟩

/-- A text that breaks off holds no report, and a call for it is told so. -/
theorem load_iff_not_spoilt_torn : Asks askFor "/w" ∧ ¬ Spoilt (projectWith "\x7b") "/w/remediation-report.json" ∧
    (runOn ({}, projectWith "\x7b") (handle {} askFor)).1 = .ok (.refusal 404 "No report available") := by
  have hs : (runOn (projectWith "\x7b") (Settings.load {} "/w" none [])).1.toOption.map (·.reportFile "/") =
      some "/w/remediation-report.json" := by decide
  have hload : (runOn (projectWith "\x7b") (load "/w/remediation-report.json")).1.toOption.map (·.isNone) = some true := by
    decide
  obtain ⟨s, hs, hpath⟩ := Option.map_eq_some_iff.1 hs
  obtain ⟨r, hr, hnone⟩ := Option.map_eq_some_iff.1 hload
  obtain ⟨hiff, hcalls⟩ := load_iff_not_spoilt "/w/remediation-report.json" (projectWith "\x7b")
  have hspoilt := hiff.1 ⟨r, ok_of_toOption hr⟩
  obtain ⟨a, ha, -, hsound⟩ := hcalls {} askFor "/w" {} s asks_askFor (ok_of_toOption hs) hpath
  refine ⟨asks_askFor, hspoilt, ?_⟩
  rcases hsound hspoilt with rfl | ⟨r', hr', -, -⟩
  · exact ha
  · obtain rfl := Except.ok.inj ((ok_of_toOption hr).symm.trans hr')
    exact absurd hnone nofun

/-- A list is no report, but it stops the reading and a call for it. -/
theorem not_read_list :
    (∃ f, (runOn (projectWith "[]") (load "/w/remediation-report.json")).1 = .error f) ∧
      ∃ a, (runOn ({}, projectWith "[]") (handle {} askFor)).1 = .ok a ∧ a.status = 500 := by
  constructor
  · have hload : (runOn (projectWith "[]") (load "/w/remediation-report.json")).1.toOption.isNone = true := by
      decide
    rcases hr : (runOn (projectWith "[]") (load "/w/remediation-report.json")).1 with f | r
    · exact ⟨f, rfl⟩
    · rw [hr] at hload
      exact absurd hload nofun
  · have hreply : (runOn (({} : Tracker), projectWith "[]") (handle {} askFor)).1.toOption.map (·.status) = some 500 :=
      by decide
    obtain ⟨a, ha, hstatus⟩ := Option.map_eq_some_iff.1 hreply
    exact ⟨a, ok_of_toOption ha, hstatus⟩

end Ratchet.Report
