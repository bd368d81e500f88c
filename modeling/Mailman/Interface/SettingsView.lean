import Mailman.Model.Settings

/-!
# What the settings are for

A value that was written is read until it is written again: by every process, where values are
read from the table, and a secret by the processes that share a key file with its writer. A
process that reads plain values from its cache goes on with those it found when it first looked,
and with what it writes itself.
-/

set_option autoImplicit false

namespace Mailman.Interface

open Mailman.Model Mailman.Model.Settings

/-- The value that was last written under each key, with the directory of its writer, and the
values of each process that has looked. -/
structure SettingsView (P D : Type) where
  written : String → Option (String × D) := fun _ => none
  known : P → Option (String → Option String) := fun _ => none

namespace SettingsView

variable {P D : Type} [DecidableEq P] [DecidableEq D] (h : Hosts P D) (p : P)

/-- The values that were last written. -/
def values (v : SettingsView P D) (key : String) : Option String := (v.written key).map (·.1)

/-- The values that a process goes by. -/
def knownTo (v : SettingsView P D) : String → Option String := (v.known p).getD v.values

/-- The process looks. -/
def look (v : SettingsView P D) : SettingsView P D :=
  { v with known := Function.update v.known p (some (v.knownTo p)) }

/-- What `get` is to answer. -/
def answer (key : String) (default : Option String) (v : SettingsView P D) : Option String :=
  let fallback := h.side.fallback (h.environ p) key default
  if h.side.isSecret key then
    match v.written key with
    | some r => if r.2 = h.dir p then some r.1 else default
    | none => fallback
  else ((if h.side.cached then v.knownTo p else v.values) key).or fallback

/-- The process writes, or deletes, a value. -/
def write (key : String) (value : Option String) (v : SettingsView P D) : SettingsView P D :=
  { written := Function.update v.written key (value.map fun x => (x, h.dir p))
    known := Function.update v.known p ((v.known p).map fun f => Function.update f key value) }

/-- What `get_all` is to answer. -/
def listing (v : SettingsView P D) (key : String) : Option String :=
  if h.side.isSecret key then (v.written key).map fun _ => "<encrypted>" else v.knownTo p key

/-- One entry of `ENV_MIGRATE`: the environment fills in what nobody wrote. -/
def migrateOne (acc : List (String × String) × SettingsView P D) (entry : String × String) :
    List (String × String) × SettingsView P D :=
  match acc.2.written entry.1, h.environ p entry.2 with
  | none, some value =>
    if value = "" then acc else (acc.1 ++ [entry], acc.2.write h p entry.1 (some value))
  | _, _ => acc

def migrate (v : SettingsView P D) : List (String × String) × SettingsView P D :=
  h.side.envMigrate.foldl (migrateOne h p) ([], v.look p)

def step (v : SettingsView P D) (e : P × Op) : Answer × SettingsView P D :=
  match e.2 with
  | .start => (.nothing, { v with known := Function.update v.known e.1 none })
  | .get key default =>
    (.value (v.answer h e.1 key default), if h.side.cached then v.look e.1 else v)
  | .set key value => (.nothing, v.write h e.1 key (some value))
  | .delete key => (.nothing, v.write h e.1 key none)
  | .getAll => (.settings (v.listing h e.1), v.look e.1)
  | .migrateFromEnv => ((v.migrate h e.1).map .migrated id)

def run : SettingsView P D → List (P × Op) → List Answer × SettingsView P D
  | v, [] => ([], v)
  | v, e :: es => ((v.step h e).1 :: (run (v.step h e).2 es).1, (run (v.step h e).2 es).2)

end SettingsView

end Mailman.Interface
