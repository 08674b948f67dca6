import Toggles.Document.Registry
import Toggles.Proofs.Ordered

/-! Runs of registrations.

A registry answers like the log of all documents that have been registered: a version by the
last document of its own, and one that has none by the last document of the default version.
-/

set_option autoImplicit false

namespace Toggles.Registry

structure Registration where
  version : String
  flattened : Bool
  document : Json

namespace Registration

def read (registration : Registration) : Except Document.ReadError Document :=
  if registration.flattened then Document.ofFlattened registration.document
  else Document.ofNested registration.document

def entry? (registration : Registration) : Option (String × Document) :=
  match registration.read with
  | .ok document => some (registration.version, document)
  | .error _ => none

end Registration

/-- Read a document and register it. The answer is the document in whose place it comes. -/
def step (registry : Registry) (registration : Registration) :
    Except Document.ReadError (Option Document) × Registry :=
  match registration.read with
  | .error cause => (.error cause, registry)
  | .ok document =>
      let (replaced, next) := registry.replace registration.version document
      (.ok replaced, next)

def run (registry : Registry) : List Registration →
    List (Except Document.ReadError (Option Document)) × Registry
  | [] => ([], registry)
  | registration :: rest =>
      let (answer, next) := registry.step registration
      let (answers, final) := next.run rest
      (answer :: answers, final)

abbrev Log := List (String × Document)

namespace Log

def ofRegistrations (registrations : List Registration) : Log :=
  registrations.filterMap Registration.entry?

theorem ofRegistrations_cons (registration : Registration) (rest : List Registration) :
    ofRegistrations (registration :: rest) = registration.entry?.toList ++ ofRegistrations rest := by
  simp only [ofRegistrations, List.filterMap_cons]
  cases registration.entry? <;> rfl

def versions (log : Log) : List String :=
  log.map (·.1)

def last? (log : Log) (version : String) : Option Document :=
  (log.reverse.find? fun entry => entry.1 = version).map (·.2)

/-- The last document of a version, or else of the default version. -/
def answering? (defaultVersion : String) (log : Log) (version : String) : Option Document :=
  (log.last? version).or (log.last? defaultVersion)

variable {log : Log} {version other : String} {document : Document}

theorem last?_append : last? (log ++ [(version, document)]) other =
    if version = other then some document else log.last? other := by
  simp only [last?, List.reverse_append, List.reverse_cons, List.reverse_nil, List.nil_append,
    List.cons_append, List.find?_cons]
  by_cases same : version = other <;> simp [same]

theorem isSome_last? : (log.last? version).isSome = true ↔ version ∈ log.versions := by
  simp [last?, versions]

theorem versions_append : versions (log ++ [(version, document)]) = log.versions ++ [version] :=
  List.map_append

-- A version that is registered again stands where it is.
theorem eraseDups_versions_append :
    (versions (log ++ [(version, document)])).eraseDups =
      if version ∈ log.versions then log.versions.eraseDups
      else log.versions.eraseDups ++ [version] := by
  rw [versions_append, List.eraseDups_append]
  by_cases present : version ∈ log.versions <;> simp [present, List.removeAll, List.eraseDups_cons]

end Log

/-- A registry holds the last document of each version of a log, in the order in which the
versions came. -/
structure Holds (defaultVersion : String) (log : Log) (registry : Registry) : Prop where
  defaultVersion : registry.defaultVersion = defaultVersion
  registered? : ∀ version, registry.registered? version = log.last? version
  versions : registry.versions = log.versions.eraseDups
  once : registry.versions.Nodup

section Steps
variable {defaultVersion : String} {log : Log} {registry : Registry}

theorem holds_empty : Holds defaultVersion [] (.empty defaultVersion) :=
  ⟨rfl, fun _ => rfl, rfl, List.nodup_nil⟩

theorem Holds.insert (holds : Holds defaultVersion log registry) (version : String)
    (document : Document) :
    Holds defaultVersion (log ++ [(version, document)]) (registry.insert version document) where
  defaultVersion := holds.defaultVersion
  registered? other := by
    rw [Log.last?_append, ← holds.registered? other]
    exact Ordered.get?_insert registry.documents version document other
  versions := by
    rw [Log.eraseDups_versions_append, ← holds.versions]
    have present : version ∈ registry.versions ↔ version ∈ log.versions := by
      rw [holds.versions, List.mem_eraseDups]
    by_cases member : version ∈ registry.versions
    · rw [if_pos (present.mp member)]
      exact Ordered.keys_insert_of_mem member
    · rw [if_neg (member ∘ present.mpr)]
      simp only [Registry.versions, Registry.insert, Ordered.insert_of_notMem member,
        Ordered.keys_append, Ordered.keys_cons, Ordered.keys_nil]
  once := Ordered.Distinct.insert holds.once

-- A step adds what it registers to the log, and answers with what was the last before.
theorem Holds.step (holds : Holds defaultVersion log registry) (registration : Registration) :
    Holds defaultVersion (log ++ registration.entry?.toList) (registry.step registration).2 ∧
      (registry.step registration).1 =
        registration.read.map fun _ => log.last? registration.version := by
  unfold Registry.step Registration.entry?
  cases registration.read with
  | error cause => exact ⟨by simpa using holds, rfl⟩
  | ok document => exact ⟨holds.insert _ document, congrArg _ (holds.registered? _)⟩

theorem run_cons (registration : Registration) (rest : List Registration) :
    registry.run (registration :: rest) =
      ((registry.step registration).1 :: ((registry.step registration).2.run rest).1,
        ((registry.step registration).2.run rest).2) :=
  rfl

theorem run_append (registrations : List Registration) (registration : Registration) :
    (registry.run (registrations ++ [registration])).2 =
      ((registry.run registrations).2.step registration).2 := by
  induction registrations generalizing registry with
  | nil => rfl
  | cons first rest ih =>
      rw [List.cons_append, run_cons, run_cons]
      exact ih

theorem Holds.run (holds : Holds defaultVersion log registry) (registrations : List Registration) :
    Holds defaultVersion (log ++ Log.ofRegistrations registrations) (registry.run registrations).2 := by
  induction registrations generalizing log registry with
  | nil => simpa [Log.ofRegistrations, Registry.run] using holds
  | cons registration rest ih =>
      rw [Log.ofRegistrations_cons, ← List.append_assoc, run_cons]
      exact ih (holds.step registration).1

-- A registration is answered with the last document before it.
theorem Holds.answer_at (holds : Holds defaultVersion log registry) (before : List Registration)
    (registration : Registration) (after : List Registration) :
    (registry.run (before ++ registration :: after)).1[before.length]? =
      some (registration.read.map fun _ =>
        Log.last? (log ++ Log.ofRegistrations before) registration.version) := by
  induction before generalizing log registry with
  | nil =>
      rw [List.nil_append, run_cons, (holds.step registration).2, Log.ofRegistrations, List.filterMap_nil,
        List.append_nil]
      rfl
  | cons first before ih =>
      rw [Log.ofRegistrations_cons, ← List.append_assoc, List.cons_append, run_cons]
      exact ih (holds.step first).1

end Steps

section Answers
variable {defaultVersion : String} {log : Log} {registry : Registry}

theorem Holds.document? (holds : Holds defaultVersion log registry) (version : String) :
    registry.document? version = log.answering? defaultVersion version := by
  rw [Registry.document?, Log.answering?, holds.registered?, holds.registered?, holds.defaultVersion]

theorem Holds.contains (holds : Holds defaultVersion log registry) (version : String) :
    registry.contains version = true ↔ version ∈ log.versions := by
  rw [Registry.contains, holds.registered?, Log.isSome_last?]

structure SameAnswers (first second : Registry) (version : String) : Prop where
  isEnabled : ∀ path, first.isEnabled version path = second.isEnabled version path
  feature? : ∀ path, first.feature? version path = second.feature? version path
  params? : ∀ path, first.params? version path = second.params? version path

-- Another document is registered for a version than for those that are there.
theorem Holds.sameAnswers_step (holds : Holds defaultVersion log registry)
    (registration : Registration) {version : String} (other : version ≠ registration.version)
    (present : version ∈ log.versions) :
    SameAnswers (registry.step registration).2 registry version := by
  have kept : (registry.step registration).2.document? version = registry.document? version := by
    have after := (holds.step registration).1
    have same : Log.last? (log ++ registration.entry?.toList) version = log.last? version := by
      unfold Registration.entry?
      cases registration.read with
      | error cause => simp
      | ok document => simp [Log.last?_append, Ne.symm other]
    rw [after.document?, holds.document?, Log.answering?, Log.answering?, same,
      Option.or_of_isSome (Log.isSome_last?.mpr present),
      Option.or_of_isSome (Log.isSome_last?.mpr present)]
  constructor <;> intro path
  · rw [Registry.isEnabled, Registry.isEnabled, kept]
  · rw [Registry.feature?, Registry.feature?, kept]
  · rw [Registry.params?, Registry.params?, kept]

/-- A registry gives the answers that a log determines. -/
structure Answers (defaultVersion : String) (log : Log) (registry : Registry) : Prop where
  isEnabled : ∀ version path, registry.isEnabled version path =
    ((log.answering? defaultVersion version).elim false fun document => document.isEnabled path)
  feature? : ∀ version path, registry.feature? version path =
    (log.answering? defaultVersion version).bind fun document => document.feature? path
  params? : ∀ version path, registry.params? version path =
    (log.answering? defaultVersion version).bind fun document => document.params? path
  contains : ∀ version, registry.contains version = true ↔ version ∈ log.versions
  versions : registry.versions = log.versions.eraseDups
  once : registry.versions.Nodup

theorem Holds.answers (holds : Holds defaultVersion log registry) :
    Answers defaultVersion log registry where
  isEnabled version path := by
    rw [Registry.isEnabled, holds.document?]
    cases log.answering? defaultVersion version <;> rfl
  feature? version path := by rw [Registry.feature?, holds.document?]
  params? version path := by rw [Registry.params?, holds.document?]
  contains := holds.contains
  versions := holds.versions
  once := holds.once

/-- After any registrations a registry answers like their log: for each version by its last
document, or else by the last one of the default version. Each registration is answered with
the last document of its version before it, and changes no answer for another version that
is registered. -/
theorem answers_run (defaultVersion : String) (registrations : List Registration) :
    Answers defaultVersion (Log.ofRegistrations registrations)
        ((empty defaultVersion).run registrations).2 ∧
      (∀ before registration after, registrations = before ++ registration :: after →
        ((empty defaultVersion).run registrations).1[before.length]? =
          some (registration.read.map fun _ =>
            (Log.ofRegistrations before).last? registration.version)) ∧
      ∀ registration version, version ≠ registration.version →
        version ∈ (Log.ofRegistrations registrations).versions →
          SameAnswers ((empty defaultVersion).run (registrations ++ [registration])).2
            ((empty defaultVersion).run registrations).2 version := by
  have start : Holds defaultVersion [] (empty defaultVersion) := holds_empty
  have holds := start.run registrations
  refine ⟨holds.answers, ?_, ?_⟩
  · rintro before registration after rfl
    exact holds_empty.answer_at before registration after
  · intro registration version other present
    rw [run_append]
    exact holds.sameAnswers_step registration other present

def sampleDocument (enabled : Bool) : Json :=
  .obj [("name", .str "sample"), ("features", .obj [("a", .obj [("enabled", .bool enabled)])])]

/-- The default version comes twice, and a document that cannot be read comes between. -/
def sampleRegistrations : List Registration :=
  [⟨"base", false, sampleDocument true⟩, ⟨"edge", true, sampleDocument true⟩,
    ⟨"edge", false, .null⟩, ⟨"base", false, sampleDocument false⟩]

theorem answers_run_sample :
    ((empty "base").run sampleRegistrations).2.isEnabled "edge" "a" = true ∧
      ((empty "base").run sampleRegistrations).2.isEnabled "other" "a" = false ∧
      ((empty "base").run sampleRegistrations).2.versions = ["base", "edge"] ∧
      ((empty "base").run sampleRegistrations).1[3]?.map Except.isOk = some true ∧
      SameAnswers ((empty "base").run (sampleRegistrations ++ [⟨"base", false, sampleDocument true⟩])).2
        ((empty "base").run sampleRegistrations).2 "edge" := by
  obtain ⟨answers, replaced, kept⟩ := answers_run "base" sampleRegistrations
  have last := replaced (sampleRegistrations.take 3) ⟨"base", false, sampleDocument false⟩ [] rfl
  refine ⟨(answers.isEnabled "edge" "a").trans (by decide +kernel),
    (answers.isEnabled "other" "a").trans (by decide +kernel), answers.versions.trans (by decide +kernel),
    (congrArg _ last).trans rfl, kept _ "edge" (by decide) (by decide +kernel)⟩

end Answers

end Toggles.Registry
