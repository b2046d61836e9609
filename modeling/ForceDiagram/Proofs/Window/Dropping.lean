/-
ForceDiagram/Proofs/Window/Dropping.lean

The two ways of dropping a file.

A file can be dropped with its content, which takes effect at once, or by its
path, and then it is loaded and takes effect when it has arrived.  Both ways read
a dataset from a text and change the screen alike, so all that can tell them
apart is how bytes become a text: the content is read forgivingly, a loaded file
strictly.  Where the bytes encode a text, both have the same dataset, or the same
fault.  Where they do not, the load is turned down, but the content may still be a
dataset, with replacement characters in its names; that is the only way for the
two to part (`drops_agree_on_texts`, `drops_part`).
-/
import ForceDiagram.Proofs.Files
import ForceDiagram.Proofs.Text.Utf8
import ForceDiagram.Proofs.Window.Screens
import ForceDiagram.Window.Session

namespace ForceDiagram

/-! ### What is read -/

namespace Dataset

variable {home : List String} {files : Files home} {path : String} {content : List UInt8}

theorem load_of_text {text : String} (hread : files.read path = .ok text.toUTF8.toList) :
    load files path = (read text).mapError (.malformed path) := by
  have hbind : (files.read path).bind textOf = .ok text := by
    rw [hread, Except.bind, textOf, Utf8.decode?_eq_some_iff.mpr rfl]
  rw [load, ofContent, hbind]
  rcases h : read text with error | records <;> simp [h, Except.mapError]

theorem load_of_no_text (hread : files.read path = .ok content)
    (hbytes : ∀ text : String, text.toUTF8.toList ≠ content) :
    load files path = .error (.unreadable path .notText) := by
  have hbind : (files.read path).bind textOf = .error .notText := by
    rw [hread, Except.bind, textOf, Utf8.decode?_eq_none_iff.mpr hbytes]
  rw [load, ofContent, hbind]

end Dataset

variable {F : Type} [Scalar F]

/-! ### What becomes of the screen -/

namespace Screen

/-- The dataset on display. -/
def records? : Screen F → Option (List Record)
  | .ready canvas => some canvas.records
  | _ => none

/-- What becomes of a screen when a dataset is turned down: a canvas stays as it
is, and any other screen gives way to a report. -/
def TurnedDown : Screen F → Screen F → Prop
  | .ready canvas, after => after = .ready canvas
  | _, after => ∃ failure, after = .failed failure

end Screen

namespace Window

theorem records?_apply_ok (w : Window F) (records : List Record) :
    (w.apply (.ok records)).screen.records? = some records := by
  unfold apply
  simp only
  split <;> rfl

theorem turnedDown_apply_error (w : Window F) (failure : Failure) :
    w.screen.TurnedDown (w.apply (.error failure)).screen := by
  rcases hscreen : w.screen with request | canvas | failure'
  · rw [screen_apply_of_not_ready (by simp [hscreen])]
    exact ⟨failure, rfl⟩
  · rw [apply_of_ready_error hscreen]
    exact hscreen
  · rw [screen_apply_of_not_ready (by simp [hscreen])]
    exact ⟨failure, rfl⟩

theorem screen_take_content (w : Window F) (content : List UInt8) (path : Option String) :
    (w.take ⟨some content, path⟩).1.screen = (w.apply (outcomeOf content)).screen :=
  screen_apply_congr w { w with requests := w.requests + 1 } rfl rfl _

theorem screen_poll_of_arrived {w : Window F} {request : Nat} {mail : Mail} {outcome : Outcome}
    (hreload : w.reload = some request) (hmail : mail request = .arrived outcome) :
    (w.poll mail).screen = (w.apply outcome).screen := by
  rw [poll, hreload, Option.bind_some, hmail]
  exact screen_apply_congr w { w with reload := none } rfl rfl _

/-! ### The two ways -/

theorem outcomeOf_text (text : String) :
    outcomeOf text.toUTF8.toList = (Dataset.read text).mapError .malformed := by
  rw [outcomeOf, Utf8.decodeLossy_toUTF8]

/-- **Both ways of dropping a file agree on texts.**  A file is dropped by its
path on any window, frames go by, and the load that the window asked for arrives.
Its screen, `u.screen` until then, is compared with that of any window `v` that
was at the same screen when the content of the file was dropped on it.

* If the content encodes a text, either both have the same dataset, and it is on
  the same canvas with the same view; or the text has a fault, and both turn it
  down in the same way.
* If it encodes none, the load is turned down.  So is the content, unless it is a
  dataset to a forgiving reader. -/
theorem drops_agree_on_texts (w : Window F) {home : List String} {files : Files home}
    {path : String} {content : List UInt8} (hread : files.read path = .ok content)
    (waiting : List (Mail × WindowFrame F)) :
    let u := (w.take ⟨none, some path⟩).1.run waiting
    ∀ (mail : Mail) (v : Window F),
      (∀ order ∈ (w.take ⟨none, some path⟩).2,
        u.reload = some order.request ∧ mail order.request = (Session.fetch files order).2) →
      v.screen = u.screen → v.config = u.config →
      let arrived := (u.poll mail).screen
      let dropped := (v.take ⟨some content, none⟩).1.screen
      (∀ text : String, text.toUTF8.toList = content →
        (∃ records, Dataset.load files path = .ok records ∧ outcomeOf content = .ok records ∧
          arrived = dropped ∧ dropped.records? = some records) ∨
        ∃ fault, Dataset.load files path = .error (.malformed path fault) ∧
          outcomeOf content = .error (.malformed fault) ∧
          u.screen.TurnedDown arrived ∧ u.screen.TurnedDown dropped) ∧
      ((∀ text : String, text.toUTF8.toList ≠ content) →
        Dataset.load files path = .error (.unreadable path .notText) ∧
        u.screen.TurnedDown arrived ∧
        ((∃ failure, outcomeOf content = .error failure ∧ u.screen.TurnedDown dropped) ∨
          ∃ records, outcomeOf content = .ok records ∧ dropped.records? = some records)) := by
  intro u mail v horders hscreen hconfig arrived dropped
  obtain ⟨hreload, hmail⟩ := horders ⟨w.requests, path⟩ List.mem_cons_self
  have harrived : arrived = (u.apply ((Dataset.load files path).mapError .unloaded)).screen :=
    screen_poll_of_arrived hreload hmail
  have hdropped : dropped = (u.apply (outcomeOf content)).screen :=
    (screen_take_content v content none).trans (screen_apply_congr u v hscreen hconfig _)
  rw [harrived, hdropped]
  constructor
  · -- both read this text
    rintro text rfl
    rw [Dataset.load_of_text hread, outcomeOf_text]
    rcases Dataset.read text with fault | records
    · exact .inr ⟨fault, rfl, rfl, turnedDown_apply_error u _, turnedDown_apply_error u _⟩
    · exact .inl ⟨records, rfl, rfl, rfl, records?_apply_ok u records⟩
  · -- the load fails before there is a text to read
    intro hbytes
    rw [Dataset.load_of_no_text hread hbytes]
    refine ⟨rfl, turnedDown_apply_error u _, ?_⟩
    rcases outcomeOf content with failure | records
    · exact .inl ⟨failure, rfl, turnedDown_apply_error u failure⟩
    · exact .inr ⟨records, rfl, records?_apply_ok u records⟩

/-- A file that is dropped by its path from the root while the first dataset is being
loaded, and arrives a frame after it. -/
theorem drops_agree_on_late_arrival :
    let content := "[[\"x\", \"y\", \"response\"]]".toUTF8.toList
    let files : Files := ⟨[(["..", "tmp", "d.json"], .file content)]⟩
    let w : Window Float32 := (start "traces.json" .standard).1
    let loaded : Mail := fun request =>
      if request = 0 then .arrived (.ok [⟨"a", "b", "response"⟩]) else .awaited
    let arrived : Mail := fun request => (Session.fetch files ⟨request, "/tmp/d.json"⟩).2
    let u := (w.take ⟨none, some "/tmp/d.json"⟩).1.run
      [(loaded, ⟨[], ⟨.zero, .zero⟩, ⟨none, false, false, none, none⟩, false⟩)]
    files.read "/tmp/d.json" = .ok content ∧
      u.screen.records? = some [⟨"a", "b", "response"⟩] ∧
      (u.poll arrived).screen = (u.take ⟨some content, none⟩).1.screen ∧
      (u.poll arrived).screen.records? = some [⟨"x", "y", "response"⟩] := by
  intro content files w loaded arrived u
  have hwalk : files.walk [".."] (Files.partsOf "/tmp/d.json") = .ok ["..", "tmp", "d.json"] := by
    rw [Files.partsOf_eq]
    rfl
  have hread : files.read "/tmp/d.json" = .ok content :=
    Files.read_of_walk (by decide +kernel) hwalk rfl
  have hcontent : (outcomeOf content).toOption = some [⟨"x", "y", "response"⟩] := by
    decide +kernel
  have horders : ∀ order ∈ (w.take ⟨none, some "/tmp/d.json"⟩).2,
      u.reload = some order.request ∧ arrived order.request = (Session.fetch files order).2 := by
    intro order horder
    obtain rfl := List.mem_singleton.mp horder
    exact ⟨rfl, rfl⟩
  obtain ⟨records, -, houtcome, hsame, hrecords⟩ | ⟨fault, -, houtcome, -⟩ :=
    (drops_agree_on_texts w hread _ arrived u horders rfl rfl).1 _ rfl
  · rw [houtcome] at hcontent
    obtain rfl := Option.some.inj hcontent
    exact ⟨hread, by decide +kernel, hsame, hsame ▸ hrecords⟩
  · rw [houtcome] at hcontent
    cases hcontent

/-- A name with a byte that is part of no character: dropped by its path, the file
leaves the dataset on display, and dropped with its content, it replaces it. -/
theorem drops_part :
    let content : List UInt8 :=
      "[[\"a".toUTF8.toList ++ 0xff :: "\", \"b\", \"response\"]]".toUTF8.toList
    let files : Files := ⟨[(["d.json"], .file content)]⟩
    let loaded : Mail := fun _ => .arrived (.ok [⟨"a", "b", "response"⟩])
    let arrived : Mail := fun request => (Session.fetch files ⟨request, "d.json"⟩).2
    let w : Window Float32 := (start "traces.json" .standard).1.run
      [(loaded, ⟨[], ⟨.zero, .zero⟩, ⟨none, false, false, none, none⟩, false⟩)]
    files.read "d.json" = .ok content ∧
      w.screen.records? = some [⟨"a", "b", "response"⟩] ∧
      (Dataset.load files "d.json").toOption = none ∧
      (outcomeOf content).toOption = some [⟨"a\ufffd", "b", "response"⟩] ∧
      ((w.take ⟨none, some "d.json"⟩).1.poll arrived).screen.records? =
        some [⟨"a", "b", "response"⟩] ∧
      (w.take ⟨some content, none⟩).1.screen.records? =
        some [⟨"a\ufffd", "b", "response"⟩] := by
  intro content files loaded arrived w
  have hwalk : files.walk [] (Files.partsOf "d.json") = .ok ["d.json"] := by
    rw [Files.partsOf_eq]
    rfl
  have hread : files.read "d.json" = .ok content :=
    Files.read_of_walk (by decide +kernel) hwalk rfl
  have hload : Dataset.load files "d.json" = .error (.unreadable "d.json" .notText) :=
    Dataset.load_of_no_text hread (Utf8.decode?_eq_none_iff.mp (by decide +kernel))
  refine ⟨hread, by decide +kernel, by rw [hload]; rfl, by decide +kernel, ?_, by decide +kernel⟩
  rw [screen_poll_of_arrived rfl rfl, hload]
  decide +kernel

end Window

end ForceDiagram
