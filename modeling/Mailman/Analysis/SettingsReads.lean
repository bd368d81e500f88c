import Mailman.Interface.SettingsView

/-!
# What a setting is read as

The table, the caches and the key files answer as the view of them does: a value is read until it
is written again, a secret under the key file of its writer only, and a cached value as the
process found it when it first looked.
-/

set_option autoImplicit false

namespace Mailman.Analysis

open Mailman.Interface Mailman.Model Mailman.Model.Settings

variable {P D : Type} [DecidableEq P] [DecidableEq D] {h : Hosts P D} {p : P}
  {w : World P D} {v : SettingsView P D}

/-! ## The world and the view of it -/

/-- The row of a value that was written. -/
def rowOf (h : Hosts P D) (file : D → Option ℕ) (key : String) (r : String × D) : Row :=
  if h.side.isSecret key then .sealed ((file r.2).getD 0) r.1 else .plain r.1

/-- The world shows the view: a secret is sealed under its writer's key file, no two directories
have one key, and no cache holds a secret. -/
structure Shows (h : Hosts P D) (w : World P D) (v : SettingsView P D) : Prop where
  table : ∀ key, w.table key = (v.written key).map (rowOf h w.file key)
  filed : ∀ key r, v.written key = some r → h.side.isSecret key = true → (w.file r.2).isSome
  held : ∀ p k, w.kek p = some k → w.file (h.dir p) = some k
  fresh : ∀ d k, w.file d = some k → k < w.drawn
  apart : ∀ d d' k, w.file d = some k → w.file d' = some k → d = d'
  loaded : ∀ p, w.loaded p = (v.known p).isSome
  plain : ∀ p f key, v.known p = some f → h.side.isSecret key = false → w.plain p key = f key
  hidden : ∀ p key, h.side.isSecret key = true → w.plain p key = none

omit [DecidableEq P] [DecidableEq D] in
/-- The empty world shows the empty view. -/
theorem shows_empty (h : Hosts P D) : Shows h ({} : World P D) {} where
  table _ := rfl
  filed _ _ hr := by cases hr
  held _ _ hk := by cases hk
  fresh _ _ hk := by cases hk
  apart _ _ _ hk := by cases hk
  loaded _ := rfl
  plain _ _ _ hf := by cases hf
  hidden _ _ _ := rfl

/-! ## The key file -/

/-- The key is that of the directory's file, and what was sealed before stays as it was. -/
theorem shows_loadKek (p : P) (hs : Shows h w v) :
    Shows h (loadKek h p w).2 v ∧
      (loadKek h p w).2.file (h.dir p) = some (loadKek h p w).1 ∧
      (loadKek h p w).2.table = w.table ∧ (loadKek h p w).2.plain = w.plain := by
  unfold loadKek
  cases hkek : w.kek p with
  | some k => exact ⟨hs, hs.held p k hkek, rfl, rfl⟩
  | none =>
    cases hfile : w.file (h.dir p) with
    | some k =>
      refine ⟨⟨hs.table, hs.filed, ?_, hs.fresh, hs.apart, hs.loaded, hs.plain, hs.hidden⟩, hfile,
        rfl, rfl⟩
      intro q k' hq
      dsimp only at hq ⊢
      by_cases hqp : q = p
      · subst hqp
        rw [Function.update_self] at hq
        rw [hfile, hq]
      · rw [Function.update_of_ne hqp] at hq
        exact hs.held q k' hq
    | none =>
      have hold : ∀ d k, w.file d = some k →
          Function.update w.file (h.dir p) (some w.drawn) d = some k := by
        intro d k hd
        have hne : d ≠ h.dir p := by
          rintro rfl
          rw [hfile] at hd
          cases hd
        rw [Function.update_of_ne hne, hd]
      have hnew : ∀ d k, Function.update w.file (h.dir p) (some w.drawn) d = some k →
          w.file d = some k ∨ d = h.dir p ∧ k = w.drawn := by
        intro d k hd
        by_cases hne : d = h.dir p
        · subst hne
          rw [Function.update_self] at hd
          cases hd
          exact Or.inr ⟨rfl, rfl⟩
        · rw [Function.update_of_ne hne] at hd
          exact Or.inl hd
      refine ⟨⟨?_, ?_, ?_, ?_, ?_, hs.loaded, hs.plain, hs.hidden⟩, ?_, rfl, rfl⟩
      · intro key
        show w.table key = _
        rw [hs.table key]
        cases hr : v.written key with
        | none => rfl
        | some r =>
          rw [Option.map_some, Option.map_some]
          unfold rowOf
          split
          · next hsecret =>
            obtain ⟨k, hk⟩ := Option.isSome_iff_exists.mp (hs.filed key r hr hsecret)
            rw [hk]
            dsimp only
            rw [hold r.2 k hk]
          · rfl
      · intro key r hr hsecret
        obtain ⟨k, hk⟩ := Option.isSome_iff_exists.mp (hs.filed key r hr hsecret)
        exact Option.isSome_iff_exists.mpr ⟨k, hold r.2 k hk⟩
      · intro q k hq
        dsimp only at hq ⊢
        by_cases hqp : q = p
        · subst hqp
          rw [Function.update_self] at hq
          rw [Function.update_self, hq]
        · rw [Function.update_of_ne hqp] at hq
          exact hold _ k (hs.held q k hq)
      · intro d k hd
        show k < w.drawn + 1
        rcases hnew d k hd with hd | ⟨-, rfl⟩
        · exact Nat.lt_succ_of_lt (hs.fresh d k hd)
        · exact Nat.lt_succ_self _
      · intro d d' k hd hd'
        rcases hnew d k hd with hd | ⟨rfl, rfl⟩
        · rcases hnew d' k hd' with hd' | ⟨rfl, rfl⟩
          · exact hs.apart d d' k hd hd'
          · exact absurd (hs.fresh d _ hd) (Nat.lt_irrefl _)
        · rcases hnew d' _ hd' with hd' | ⟨rfl, -⟩
          · exact absurd (hs.fresh d' _ hd') (Nat.lt_irrefl _)
          · rfl
      · exact Function.update_self ..

/-- A sealed value is opened by the processes of its writer's directory. -/
theorem decrypt_rowOf (p : P) (hs : Shows h w v) {key : String} {r : String × D}
    (hr : v.written key = some r) (hsecret : h.side.isSecret key = true) :
    (decrypt h p (rowOf h w.file key r) w).1 = (if r.2 = h.dir p then some r.1 else none) ∧
      Shows h (decrypt h p (rowOf h w.file key r) w).2 v := by
  obtain ⟨hs', hfile, htable, -⟩ := shows_loadKek p hs
  have hrow : rowOf h w.file key r = rowOf h (loadKek h p w).2.file key r := by
    have h₁ := hs.table key
    have h₂ := hs'.table key
    rw [htable, h₁, hr] at h₂
    exact Option.some.inj h₂
  refine ⟨?_, ?_⟩
  · rw [hrow]
    unfold rowOf
    rw [if_pos hsecret, decrypt_sealed]
    obtain ⟨k, hk⟩ := Option.isSome_iff_exists.mp (hs'.filed key r hr hsecret)
    rw [hk, Option.getD_some]
    by_cases hdir : r.2 = h.dir p
    · rw [hdir, hfile] at hk
      rw [if_pos (Option.some.inj hk).symm, if_pos hdir]
    · have hne : k ≠ (loadKek h p w).1 := by
        rintro rfl
        exact hdir (hs'.apart _ _ _ hk hfile)
      rw [if_neg hne, if_neg hdir]
  · rw [decrypt_snd]
    exact hs'

/-! ## The caches -/

omit [DecidableEq D] in
/-- Looking again changes nothing. -/
theorem SettingsView.look_eq {f : String → Option String} (hp : v.known p = some f) :
    v.look p = v := by
  unfold SettingsView.look SettingsView.knownTo
  rw [hp, Option.getD_some, ← hp, Function.update_eq_self]

omit [DecidableEq D] in
/-- Loading the cache shows a look. -/
theorem shows_ensureLoaded (p : P) (hs : Shows h w v) :
    Shows h (ensureLoaded p w) (v.look p) := by
  unfold ensureLoaded
  cases hknown : v.known p with
  | some f =>
    rw [if_pos (by rw [hs.loaded, hknown]; rfl), SettingsView.look_eq hknown]
    exact hs
  | none =>
    rw [if_neg (by rw [hs.loaded, hknown]; decide)]
    have hvalue : ∀ key, (w.table key).bind Row.plain? =
        if h.side.isSecret key then none else v.values key := by
      intro key
      rw [hs.table key]
      unfold SettingsView.values rowOf
      cases v.written key with
      | none => simp
      | some r => cases h.side.isSecret key <;> rfl
    refine ⟨hs.table, hs.filed, hs.held, hs.fresh, hs.apart, ?_, ?_, ?_⟩
    · intro q
      unfold loadPlainCache SettingsView.look
      by_cases hqp : q = p
      · subst hqp
        simp
      · simp [Function.update_of_ne hqp, hs.loaded]
    · intro q f key hq hplain
      unfold loadPlainCache
      unfold SettingsView.look at hq
      by_cases hqp : q = p
      · subst hqp
        dsimp only at hq ⊢
        rw [Function.update_self] at hq ⊢
        cases hq
        unfold SettingsView.knownTo
        rw [hvalue, hknown, hplain]
        rfl
      · dsimp only at hq ⊢
        rw [Function.update_of_ne hqp] at hq ⊢
        exact hs.plain q f key hq hplain
    · intro q key hsecret
      unfold loadPlainCache
      by_cases hqp : q = p
      · subst hqp
        dsimp only
        rw [Function.update_self, hvalue, hsecret]
        rfl
      · dsimp only
        rw [Function.update_of_ne hqp]
        exact hs.hidden q key hsecret

/-! ## The operations -/

omit [DecidableEq D] in
/-- A look writes nothing. -/
theorem SettingsView.written_look (p : P) : (v.look p).written = v.written := rfl

omit [DecidableEq D] in
/-- A look changes nothing that is known to the process. -/
theorem SettingsView.knownTo_look (p : P) : (v.look p).knownTo p = v.knownTo p := by
  unfold SettingsView.knownTo SettingsView.look
  dsimp only
  rw [Function.update_self]
  rfl

omit [DecidableEq D] in
/-- What a process reads from its cache. -/
theorem plain_ensureLoaded (p : P) (hs : Shows h w v) {key : String}
    (hplain : h.side.isSecret key = false) :
    (ensureLoaded p w).plain p key = v.knownTo p key := by
  refine (shows_ensureLoaded p hs).plain p _ key ?_ hplain
  exact Function.update_self ..

/-- A read answers as the view does. -/
theorem shows_get (p : P) (hs : Shows h w v) (key : String) (default : Option String) :
    (Settings.get h p key default w).1 = v.answer h p key default ∧
      Shows h (Settings.get h p key default w).2 (if h.side.cached then v.look p else v) := by
  have hlook := shows_ensureLoaded p hs
  unfold Settings.get SettingsView.answer
  cases hcached : h.side.cached with
  | true =>
    rw [if_pos rfl, if_pos rfl]
    unfold cloudGet
    dsimp only
    by_cases hsecret : h.side.isSecret key = true
    · rw [if_pos hsecret, if_pos hsecret, hlook.table key, SettingsView.written_look]
      cases hr : v.written key with
      | none => exact ⟨rfl, hlook⟩
      | some r =>
        obtain ⟨hvalue, hafter⟩ := decrypt_rowOf p hlook hr hsecret
        have hrow : rowOf h (ensureLoaded p w).file key r =
            .sealed (((ensureLoaded p w).file r.2).getD 0) r.1 := if_pos hsecret
        rw [hrow] at hvalue hafter
        rw [Option.map_some, hrow]
        dsimp only
        refine ⟨?_, hafter⟩
        rw [hvalue]
        split <;> rfl
    · rw [Bool.not_eq_true] at hsecret
      rw [hsecret, plain_ensureLoaded p hs hsecret]
      cases v.knownTo p key with
      | none => exact ⟨rfl, hlook⟩
      | some value => exact ⟨rfl, hlook⟩
  | false =>
    simp only [Bool.false_eq_true, if_false]
    unfold terminalGet
    rw [hs.table key]
    by_cases hsecret : h.side.isSecret key = true
    · simp only [hsecret, if_true]
      cases hr : v.written key with
      | none => exact ⟨rfl, hs⟩
      | some r =>
        obtain ⟨hvalue, hafter⟩ := decrypt_rowOf p hs hr hsecret
        rw [Option.map_some]
        dsimp only
        refine ⟨?_, hafter⟩
        rw [hvalue]
        split <;> rfl
    · rw [Bool.not_eq_true] at hsecret
      simp only [hsecret, Bool.false_eq_true, if_false]
      unfold SettingsView.values
      cases hr : v.written key with
      | none => exact ⟨rfl, hs⟩
      | some r =>
        refine ⟨?_, hs⟩
        unfold rowOf
        rw [hsecret]
        rfl

omit [DecidableEq D] in
/-- A row is put in, or taken out, and a plain value also in the cache of the process. -/
theorem shows_write (p : P) (hs : Shows h w v) (key : String) (value : Option String)
    (hfile : h.side.isSecret key = true → value.isSome → (w.file (h.dir p)).isSome)
    (cache : String → Option String)
    (hcache : ∀ k, h.side.isSecret k = false →
      cache k = Function.update (w.plain p) key value k)
    (hhidden : ∀ k, h.side.isSecret k = true → cache k = none) :
    Shows h { w with
        table := Function.update w.table key
          (value.map fun x => rowOf h w.file key (x, h.dir p))
        plain := Function.update w.plain p cache }
      (v.write h p key value) := by
  refine ⟨?_, ?_, hs.held, hs.fresh, hs.apart, ?_, ?_, ?_⟩
  · intro k
    unfold SettingsView.write
    by_cases hk : k = key
    · subst hk
      dsimp only
      rw [Function.update_self, Function.update_self, Option.map_map]
      rfl
    · dsimp only
      rw [Function.update_of_ne hk, Function.update_of_ne hk]
      exact hs.table k
  · intro k r hr hsecret
    unfold SettingsView.write at hr
    by_cases hk : k = key
    · subst hk
      dsimp only at hr
      rw [Function.update_self] at hr
      cases value with
      | none => cases hr
      | some x =>
        cases hr
        exact hfile hsecret rfl
    · dsimp only at hr
      rw [Function.update_of_ne hk] at hr
      exact hs.filed k r hr hsecret
  · intro q
    unfold SettingsView.write
    show w.loaded q = _
    rw [hs.loaded q]
    by_cases hqp : q = p
    · subst hqp
      dsimp only
      rw [Function.update_self, Option.isSome_map]
    · dsimp only
      rw [Function.update_of_ne hqp]
  · intro q f k hq hplain
    unfold SettingsView.write at hq
    by_cases hqp : q = p
    · subst hqp
      dsimp only at hq ⊢
      rw [Function.update_self] at hq ⊢
      cases hknown : v.known q with
      | none =>
        rw [hknown] at hq
        cases hq
      | some g =>
        rw [hknown] at hq
        cases hq
        rw [hcache k hplain]
        dsimp only
        by_cases hk : k = key
        · subst hk
          rw [Function.update_self, Function.update_self]
        · rw [Function.update_of_ne hk, Function.update_of_ne hk]
          exact hs.plain q g k hknown hplain
    · dsimp only at hq ⊢
      rw [Function.update_of_ne hqp] at hq ⊢
      exact hs.plain q f k hq hplain
  · intro q k hsecret
    by_cases hqp : q = p
    · subst hqp
      dsimp only
      rw [Function.update_self]
      exact hhidden k hsecret
    · dsimp only
      rw [Function.update_of_ne hqp]
      exact hs.hidden q k hsecret

/-- A write shows the write. -/
theorem shows_set (p : P) (hs : Shows h w v) (key value : String) :
    Shows h (Settings.set h p key value w) (v.write h p key (some value)) := by
  unfold Settings.set
  by_cases hsecret : h.side.isSecret key = true
  · rw [if_pos hsecret]
    obtain ⟨hkek, hfile, -, -⟩ := shows_loadKek p hs
    have hrow : Row.sealed (loadKek h p w).1 value =
        rowOf h (loadKek h p w).2.file key (value, h.dir p) := by
      unfold rowOf
      rw [if_pos hsecret, hfile]
      rfl
    have hwrite := shows_write p hkek key (some value) (fun _ _ => by rw [hfile]; rfl)
      ((loadKek h p w).2.plain p) (fun k hk => ?_) (hkek.hidden p)
    · rw [Function.update_eq_self] at hwrite
      unfold encrypt
      dsimp only
      rw [hrow]
      exact hwrite
    · have hne : k ≠ key := by
        rintro rfl
        rw [hk] at hsecret
        cases hsecret
      rw [Function.update_of_ne hne]
  · rw [if_neg hsecret]
    rw [Bool.not_eq_true] at hsecret
    have hrow : Row.plain value = rowOf h w.file key (value, h.dir p) := by
      unfold rowOf
      rw [hsecret]
      rfl
    rw [hrow]
    refine shows_write p hs key (some value) ?_ _ (fun _ _ => rfl) fun k hk => ?_
    · intro h'
      rw [hsecret] at h'
      cases h'
    · have hne : k ≠ key := by
        rintro rfl
        rw [hk] at hsecret
        cases hsecret
      rw [Function.update_of_ne hne]
      exact hs.hidden p k hk

omit [DecidableEq D] in
/-- A delete shows the write of nothing. -/
theorem shows_delete (p : P) (hs : Shows h w v) (key : String) :
    Shows h (Settings.delete p key w) (v.write h p key none) := by
  refine shows_write p hs key none (fun _ h' => by cases h') _ (fun _ _ => rfl) fun k hk => ?_
  by_cases hne : k = key
  · subst hne
    rw [Function.update_self]
  · rw [Function.update_of_ne hne]
    exact hs.hidden p k hk

omit [DecidableEq D] in
/-- A listing is that of the view. -/
theorem shows_getAll (p : P) (hs : Shows h w v) :
    (getAll p w).1 = v.listing h p ∧ Shows h (getAll p w).2 (v.look p) := by
  have hlook := shows_ensureLoaded p hs
  refine ⟨?_, hlook⟩
  funext key
  unfold getAll SettingsView.listing
  dsimp only
  rw [hlook.table key, SettingsView.written_look]
  cases hsecret : h.side.isSecret key with
  | true =>
    rw [if_pos rfl]
    cases v.written key with
    | none => exact hlook.hidden p key hsecret
    | some r =>
      rw [Option.map_some, Option.map_some]
      unfold rowOf
      rw [if_pos hsecret]
  | false =>
    rw [if_neg (by decide), ← plain_ensureLoaded p hs hsecret]
    cases v.written key with
    | none => rfl
    | some r =>
      rw [Option.map_some]
      unfold rowOf
      rw [hsecret]
      rfl

omit [DecidableEq D] in
/-- A start shows a process that knows nothing. -/
theorem shows_start (p : P) (hs : Shows h w v) :
    Shows h (Settings.start p w) { v with known := Function.update v.known p none } := by
  refine ⟨hs.table, hs.filed, ?_, hs.fresh, hs.apart, ?_, ?_, ?_⟩
  all_goals unfold Settings.start
  · intro q k hq
    by_cases hqp : q = p
    · subst hqp
      simp at hq
    · simp only [Function.update_of_ne hqp] at hq
      exact hs.held q k hq
  · intro q
    by_cases hqp : q = p
    · subst hqp
      simp
    · simp [Function.update_of_ne hqp, hs.loaded]
  · intro q f key hq hplain
    by_cases hqp : q = p
    · subst hqp
      simp at hq
    · simp only [Function.update_of_ne hqp] at hq ⊢
      exact hs.plain q f key hq hplain
  · intro q key hsecret
    by_cases hqp : q = p
    · subst hqp
      simp
    · simp only [Function.update_of_ne hqp]
      exact hs.hidden q key hsecret

/-- One entry is migrated as in the view. -/
theorem shows_migrateOne (p : P) {moved : List (String × String)} (hs : Shows h w v)
    (entry : String × String) :
    (Settings.migrateOne h p (moved, w) entry).1 = (SettingsView.migrateOne h p (moved, v) entry).1 ∧
      Shows h (Settings.migrateOne h p (moved, w) entry).2
        (SettingsView.migrateOne h p (moved, v) entry).2 := by
  unfold Settings.migrateOne SettingsView.migrateOne
  dsimp only
  rw [hs.table entry.1]
  cases v.written entry.1 with
  | some r => exact ⟨rfl, hs⟩
  | none =>
    cases h.environ p entry.2 with
    | none => exact ⟨rfl, hs⟩
    | some value =>
      rw [Option.map_none]
      dsimp only
      split
      · exact ⟨rfl, hs⟩
      · exact ⟨rfl, shows_set p hs entry.1 value⟩

/-- The environment is migrated as in the view. -/
theorem shows_migrateFromEnv (p : P) (hs : Shows h w v) :
    (migrateFromEnv h p w).1 = (v.migrate h p).1 ∧
      Shows h (migrateFromEnv h p w).2 (v.migrate h p).2 := by
  have hfold : ∀ (entries moved : List (String × String)) {w : World P D} {v : SettingsView P D},
      Shows h w v →
      (entries.foldl (Settings.migrateOne h p) (moved, w)).1 =
          (entries.foldl (SettingsView.migrateOne h p) (moved, v)).1 ∧
        Shows h (entries.foldl (Settings.migrateOne h p) (moved, w)).2
          (entries.foldl (SettingsView.migrateOne h p) (moved, v)).2 := by
    intro entries
    induction entries with
    | nil => exact fun moved w v hs => ⟨rfl, hs⟩
    | cons entry entries ih =>
      intro moved w v hs
      obtain ⟨hmoved, hone⟩ := @shows_migrateOne _ _ _ _ h w v p moved hs entry
      have hpair : Settings.migrateOne h p (moved, w) entry =
          ((SettingsView.migrateOne h p (moved, v) entry).1,
            (Settings.migrateOne h p (moved, w) entry).2) := Prod.ext hmoved rfl
      rw [List.foldl_cons, List.foldl_cons, hpair]
      exact ih _ hone
  exact hfold _ [] (shows_loadKek p (shows_ensureLoaded p hs)).1

/-- **One step**: the world answers as the view does, and shows it afterwards. -/
theorem shows_step (hs : Shows h w v) (e : P × Op) :
    (Settings.step h w e).1 = (v.step h e).1 ∧ Shows h (Settings.step h w e).2 (v.step h e).2 := by
  obtain ⟨p, op⟩ := e
  cases op with
  | start => exact ⟨rfl, shows_start p hs⟩
  | get key default =>
    obtain ⟨hanswer, hafter⟩ := shows_get p hs key default
    exact ⟨congrArg Answer.value hanswer, hafter⟩
  | set key value => exact ⟨rfl, shows_set p hs key value⟩
  | delete key => exact ⟨rfl, shows_delete p hs key⟩
  | getAll =>
    obtain ⟨hanswer, hafter⟩ := shows_getAll p hs
    exact ⟨congrArg Answer.settings hanswer, hafter⟩
  | migrateFromEnv =>
    obtain ⟨hanswer, hafter⟩ := shows_migrateFromEnv p hs
    exact ⟨congrArg Answer.migrated hanswer, hafter⟩

/-- **A run of any processes answers as the view does.** -/
theorem shows_run (hs : Shows h w v) (es : List (P × Op)) :
    (Settings.run h w es).1 = (v.run h es).1 ∧ Shows h (Settings.run h w es).2 (v.run h es).2 := by
  induction es generalizing w v with
  | nil => exact ⟨rfl, hs⟩
  | cons e es ih =>
    obtain ⟨hanswer, hone⟩ := shows_step hs e
    obtain ⟨hanswers, hrest⟩ := ih hone
    exact ⟨congrArg₂ List.cons hanswer hanswers, hrest⟩

end Mailman.Analysis
