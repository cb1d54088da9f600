import LlamaServerManager.Checkpoint.Isolation
import LlamaServerManager.Checkpoint.Site

/-!
Operations can be executed: a store whose calls do not fail, and a backend that answers
as it is told.
-/

namespace LlamaServerManager.Checkpoint

open Lib

/-- What the backend answers, what it writes when it saves a slot, and the values that a
store draws from its surroundings. -/
structure Bench where
  around : Surroundings
  environment : Environment
  saved : Nat → String → List UInt8
  uuid : String
  available : Nat
  millis : Nat
  time : String

namespace Bench

/-- Saving a slot writes its file in the scratch directory. -/
def save (bench : Bench) (id : Nat) (filename : String) (fs : Files) : Files :=
  Function.update fs [bench.around.instanceId, "scratch", filename]
    (some (.file (bench.saved id filename)))

def commitSetting (bench : Bench) : Setting where
  codec := bench.around.codec
  ready := true
  now := bench.time
  millis := bench.millis
  injected _ := .io "injected fault"
  kept _ := false

def pruneSetting (bench : Bench) : PruneSetting where
  codec := bench.around.codec
  listing := bench.around.listing
  ready := true
  now := bench.time
  kept _ := false

/-- The answer to a question. -/
def answer (bench : Bench) : (q : Query) → Files → Option (q.Answer × Files)
  | .loadLatest i f, fs =>
    let (t, a) := loadLatest bench.around.codec bench.around.listing true bench.millis i f fs
    some (a, t)
  | .hasOtherFingerprintGeneration i f, fs =>
    let (t, a) := hasOtherFingerprintGeneration bench.around.codec bench.around.listing true
      bench.millis i f fs
    some (a, t)
  | .copySlotToScratch i pid generation slot, fs =>
    (copySlotToScratch bench.around.codec true bench.available 0 bench.uuid i pid generation
      slot).calmly fs
  | .removeScratchPayload i path, fs => (removeScratchPayload true i path).calmly fs
  | .ensureScratchCapacity i bytes, fs =>
    (ensureScratchCapacity true bench.available i bytes).calmly fs
  | .newScratchSlotPathFor i pid slot, fs =>
    (newScratchSlotPathFor true bench.uuid i pid slot).calmly fs
  | .verifyScratchPayload i path bytes, fs =>
    (verifyScratchPayload bench.around.codec true i path bytes).calmly fs
  | .rejectGeneration i generation, fs => (rejectGeneration true i generation).calmly fs
  | .commitSlots manifest payloads limit, fs =>
    (commitSlots bench.commitSetting manifest payloads limit).calmly fs
  | .pruneInstance i limit kept, fs => do
    let (result, t) ← (pruneInstance bench.pruneSetting i limit kept).calmly fs
    return (result.map fun _ => (), t)
  | .saveSlot id filename, fs =>
    some (bench.environment.answer (.saveSlot id filename), bench.save id filename fs)
  | q, fs => some (bench.environment.answer q, fs)

def serve (bench : Bench) : (q : Call) → Site → Option (q.Answer × Site)
  | .lock s, site =>
    let (a, entries) := s.run bench.environment site.entries
    some (a, { site with entries })
  | .ask q, site => do
    let (a, files) ← bench.answer q site.files
    return (a, { site with files, log := site.log ++ [⟨q, a, files⟩] })

/-- The surroundings allow what a bench does. -/
structure Fits (bench : Bench) : Prop where
  uuid : validateUuid bench.uuid = true
  calm : bench.around.fates Prog.calm
  whole : bench.around.cuts fun _ => false

theorem answer_serves {bench : Bench} (fits : bench.Fits) {q : Query} {fs t : Files} {a : q.Answer}
    (h : bench.answer q fs = some (a, t)) : bench.around.Serves q fs a t := by
  cases q with
  | loadLatest i f =>
    cases h
    exact ⟨true, bench.millis, rfl⟩
  | hasOtherFingerprintGeneration i f =>
    cases h
    exact ⟨true, bench.millis, rfl⟩
  | copySlotToScratch i pid generation slot =>
    exact ⟨true, _, 0, _, fits.uuid, Prog.calmly_yields fits.calm h⟩
  | removeScratchPayload i path => exact ⟨true, Prog.calmly_yields fits.calm h⟩
  | ensureScratchCapacity i bytes => exact ⟨true, _, Prog.calmly_yields fits.calm h⟩
  | newScratchSlotPathFor i pid slot =>
    exact ⟨true, _, fits.uuid, Prog.calmly_yields fits.calm h⟩
  | verifyScratchPayload i path bytes => exact ⟨true, Prog.calmly_yields fits.calm h⟩
  | rejectGeneration i generation => exact ⟨true, Prog.calmly_yields fits.calm h⟩
  | commitSlots manifest payloads limit =>
    exact ⟨bench.commitSetting, rfl, fits.whole, Prog.calmly_yields fits.calm h⟩
  | pruneInstance i limit kept =>
    obtain ⟨⟨result, t'⟩, ran, eq⟩ := Option.bind_eq_some_iff.mp h
    cases eq
    exact ⟨bench.pruneSetting, result, rfl, rfl, fits.whole, Prog.calmly_yields fits.calm ran, rfl⟩
  | saveSlot id filename =>
    cases h
    intro p outside
    refine Function.update_of_ne (fun eq => outside ?_) ..
    exact ⟨[filename], eq.symm⟩
  | now | elapsed | newGeneration | health | slots | restoreSlot | slotClient | activeRequests
  | terminate =>
    cases h
    rfl

/-- What is executed on a bench is a run. -/
theorem serve_steps {bench : Bench} (fits : bench.Fits) (q : Call) (site : Site) (a : q.Answer)
    (site' : Site) (h : bench.serve q site = some (a, site')) : bench.around.Step site q a site' := by
  cases q with
  | lock s =>
    cases h
    exact .lock bench.environment s site
  | ask q =>
    obtain ⟨⟨b, files⟩, answered, eq⟩ := Option.bind_eq_some_iff.mp h
    cases eq
    exact .ask (answer_serves fits answered)

/-- The site an operation leaves. -/
def leaves {α : Type} (bench : Bench) (x : Fallible α) (site : Site) : Option Site :=
  ((x.run.run []).execute bench.serve site).map (·.2.2)

theorem leaves_runs {α : Type} {bench : Bench} (fits : bench.Fits) {x : Fallible α}
    {site site' : Site} (h : bench.leaves x site = some site') :
    ∃ visited result, Script.Runs bench.around.Step (x.run.run []) site visited result site' := by
  obtain ⟨⟨visited, result, last⟩, ran, rfl⟩ := Option.map_eq_some_iff.mp h
  exact ⟨visited, result, Script.execute_runs (serve_steps fits) ran⟩

/-- What an operation returns, and the site it leaves. -/
def ends {α : Type} (bench : Bench) (x : Fallible α) (site : Site) :
    Option (Except StoreError α × Site) :=
  ((x.run.run []).execute bench.serve site).map fun (_, result, last) => (result.1, last)

theorem ends_runs {α : Type} {bench : Bench} (fits : bench.Fits) {x : Fallible α}
    {site site' : Site} {a : Except StoreError α} (h : bench.ends x site = some (a, site')) :
    ∃ visited result, Script.Runs bench.around.Step (x.run.run []) site visited result site' ∧
      result.1 = a := by
  obtain ⟨⟨visited, result, last⟩, ran, eq⟩ := Option.map_eq_some_iff.mp h
  cases eq
  exact ⟨visited, result, Script.execute_runs (serve_steps fits) ran, rfl⟩

end Bench

end LlamaServerManager.Checkpoint
