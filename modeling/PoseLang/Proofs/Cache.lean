import PoseLang.Cache
import PoseLang.Proofs.Lists

/-!
# A cache changes no result

Calls on a cache are made one after the other: requests for sources, and clearing. Whatever was called before, a
request is answered with what compiling the source gives, be it a motion or an error.

A request can end in three ways (`Cache.Requests`): the source has an entry, or another source with its hash has
one, or its key is not in use. Between two calls nothing is pending, and every entry that is kept has its result and
stands under the hash of its source (`Cache.Settled`).

What is proved:

* a request from a settled cache ends in one of the three ways (`Cache.Settled.requests`), and each of them keeps the
  cache settled and answers what compiling gives (`Cache.Requests.settled`, `Cache.Requests.result`);
* so does a whole run (`Cache.Settled.run`), and a run from a new cache answers as if there were no cache
  (`Cache.run_transparent`). No assumption on the hash is made.
-/

namespace PoseLang

/-! ### Tables -/

namespace Lru

variable {κ ν : Type}

@[simp] theorem capacity_clear (t : Lru κ ν) : t.clear.capacity = t.capacity := rfl

@[simp] theorem entries_clear (t : Lru κ ν) : t.clear.entries = [] := rfl

variable [DecidableEq κ] {t : Lru κ ν} {k : κ}

@[simp] theorem capacity_put (v : ν) : (t.put k v).capacity = t.capacity := rfl

theorem mem_of_mem_put {v : ν} {p : κ × ν} (h : p ∈ (t.put k v).entries) : p = (k, v) ∨ p ∈ t.entries := by
  rcases List.mem_cons.mp (List.mem_of_mem_take h) with rfl | h
  · exact .inl rfl
  · exact .inr (List.mem_filter.mp h).1

/-- Using an entry brings nothing new. -/
theorem mem_of_mem_put_of_mem {v : ν} (h : (k, v) ∈ t.entries) {p : κ × ν} (hp : p ∈ (t.put k v).entries) :
    p ∈ t.entries := by
  rcases mem_of_mem_put hp with rfl | hp
  · exact h
  · exact hp

theorem get?_of_mem {v : ν} (h : (k, v) ∈ t.entries) : t.get? k = some (v, t.put k v) := by
  rw [get?, lookup_of_mem t.nodup_keys h, Option.map_some]

theorem get?_of_forall_ne (h : ∀ p ∈ t.entries, p.1 ≠ k) : t.get? k = none := by
  rw [get?, Option.map_eq_none_iff, List.lookup_eq_none_iff]
  intro p hp
  simpa using (h p hp).symm

end Lru

/-- A cell keeps what it holds when another one is added. -/
theorem getElem?_push_of_eq_some {α : Type} {cells : Array α} {i : Nat} {a b : α} (h : cells[i]? = some a) :
    (cells.push b)[i]? = some a := by
  obtain ⟨hi, -⟩ := Array.getElem?_eq_some_iff.mp h
  rw [Array.getElem?_push_lt hi, ← h, Array.getElem?_eq_getElem hi]

namespace Cache

/-! ### Calls -/

/-- A call on a cache. -/
inductive Call where
  | request (source : String)
  | clear
deriving DecidableEq, Repr

/-- The source that is asked for. -/
def Call.source? : Call → Option String
  | request source => some source
  | clear => none

/-- One call. A request has an answer. -/
def call (c : Cache) : Call → Option Outcome × Cache
  | .request source => (some (c.request source).1, (c.request source).2)
  | .clear => (none, c.clear)

/-- Calls one after the other: the answers, and the cache after all of them. -/
def run (c : Cache) : List Call → List (Option Outcome) × Cache
  | [] => ([], c)
  | first :: calls =>
    let (answer, next) := c.call first
    (answer :: (next.run calls).1, (next.run calls).2)

/-! ### One request -/

/-- The ways in which a request can end. -/
inductive Requests (c : Cache) (source : String) : Outcome × Cache → Prop
  /-- The source has an entry, which is used. -/
  | hit {e : CacheEntry} {o : Outcome} : (c.hasher source, e) ∈ c.done.entries → e.source = source →
      c.cells[e.cell]? = some (some o) → Requests c source (o, { c with done := c.done.put (c.hasher source) e })
  /-- Another source has an entry under the key. That entry is used, and the source is compiled. -/
  | collision {e : CacheEntry} : (c.hasher source, e) ∈ c.done.entries → e.source ≠ source →
      Requests c source (⟨compile c.config source, c.compiles⟩,
        { c with done := c.done.put (c.hasher source) e, compiles := c.compiles + 1 })
  /-- The key is not in use. The source is compiled and gets an entry. -/
  | miss : (∀ p ∈ c.done.entries, p.1 ≠ c.hasher source) →
      Requests c source (⟨compile c.config source, c.compiles⟩,
        { c with
          done := c.done.put (c.hasher source) ⟨source, c.cells.size⟩
          cells := c.cells.push (some ⟨compile c.config source, c.compiles⟩)
          compiles := c.compiles + 1 })

/-- What holds of a cache between two calls. -/
structure Settled (c : Cache) : Prop where
  pending : c.pending = []
  capacity : c.done.capacity = c.config.cacheCapacity
  key : ∀ p ∈ c.done.entries, p.1 = c.hasher p.2.source
  finished : ∀ p ∈ c.done.entries, ∃ o, c.cells[p.2.cell]? = some (some o) ∧ o.result = compile c.config p.2.source

/-- A request that finds its key not in use leaves nothing pending. -/
theorem request_of_forall_ne {c : Cache} (hpending : c.pending = []) {source : String}
    (h : ∀ p ∈ c.done.entries, p.1 ≠ c.hasher source) :
    c.request source = (⟨compile c.config source, c.compiles⟩,
      { c with
        done := c.done.put (c.hasher source) ⟨source, c.cells.size⟩
        cells := c.cells.push (some ⟨compile c.config source, c.compiles⟩)
        compiles := c.compiles + 1 }) := by
  have hset (o : Option Outcome) : (c.cells.push none).setIfInBounds c.cells.size o = c.cells.push o := by
    rw [Array.setIfInBounds_def, dif_pos (by simp), Array.set_push, dif_neg (Nat.lt_irrefl _)]
  simp [request, cellFor, Lru.get?_of_forall_ne h, hpending, fill, compileAnew, hset, promote]

/-- From a settled cache there is no other way. -/
theorem Settled.requests {c : Cache} (h : c.Settled) (source : String) : Requests c source (c.request source) := by
  by_cases hfree : ∀ p ∈ c.done.entries, p.1 ≠ c.hasher source
  · rw [request_of_forall_ne h.pending hfree]
    exact .miss hfree
  · push Not at hfree
    obtain ⟨⟨key, e⟩, he, rfl⟩ := hfree
    by_cases hsource : e.source = source
    · obtain ⟨o, ho, -⟩ := h.finished _ he
      have hrequest : c.request source = (o, { c with done := c.done.put (c.hasher source) e }) := by
        simp [request, cellFor, Lru.get?_of_mem he, hsource, fill, ho, promote, h.pending]
      rw [hrequest]
      exact .hit he hsource ho
    · have hrequest : c.request source = (⟨compile c.config source, c.compiles⟩,
          { c with done := c.done.put (c.hasher source) e, compiles := c.compiles + 1 }) := by
        simp [request, cellFor, Lru.get?_of_mem he, hsource, compileAnew]
      rw [hrequest]
      exact .collision he hsource

/-- Using an entry that is kept keeps a cache settled. -/
theorem Settled.use {c : Cache} (h : c.Settled) {key : UInt64} {e : CacheEntry} (he : (key, e) ∈ c.done.entries)
    (compiles : Nat) : Settled { c with done := c.done.put key e, compiles } := by
  have hold : ∀ p ∈ (c.done.put key e).entries, p ∈ c.done.entries := fun p => Lru.mem_of_mem_put_of_mem he
  exact ⟨h.pending, h.capacity, fun p hp => h.key p (hold p hp), fun p hp => h.finished p (hold p hp)⟩

namespace Requests

variable {c : Cache} {source : String} {r : Outcome × Cache}

/-- The answer is what compiling gives. -/
theorem result (h : c.Requests source r) (hc : c.Settled) : r.1.result = compile c.config source := by
  cases h with
  | @hit e o he hsource ho =>
    obtain ⟨o', ho', hresult⟩ := hc.finished _ he
    obtain rfl : o = o' := by simpa [ho] using ho'
    rw [hresult, hsource]
  | collision => rfl
  | miss => rfl

theorem config_eq (h : c.Requests source r) : r.2.config = c.config := by
  cases h <;> rfl

theorem hasher_eq (h : c.Requests source r) : r.2.hasher = c.hasher := by
  cases h <;> rfl

theorem settled (h : c.Requests source r) (hc : c.Settled) : r.2.Settled := by
  cases h with
  | hit he => exact hc.use he c.compiles
  | collision he => exact hc.use he (c.compiles + 1)
  | miss =>
    refine ⟨hc.pending, hc.capacity, fun p hp => ?_, fun p hp => ?_⟩
    · rcases Lru.mem_of_mem_put hp with rfl | hp
      · rfl
      · exact hc.key p hp
    · rcases Lru.mem_of_mem_put hp with rfl | hp
      · exact ⟨_, Array.getElem?_push_size, rfl⟩
      · obtain ⟨o, ho, hresult⟩ := hc.finished p hp
        exact ⟨o, getElem?_push_of_eq_some ho, hresult⟩

end Requests

/-! ### Runs -/

theorem Settled.clear {c : Cache} (h : c.Settled) : c.clear.Settled where
  pending := h.pending
  capacity := h.capacity
  key := nofun
  finished := nofun

/-- One call keeps a cache settled, and a request gets what compiling gives. -/
theorem Settled.call {c : Cache} (h : c.Settled) (call : Call) :
    (c.call call).2.Settled ∧ (c.call call).2.config = c.config ∧ (c.call call).2.hasher = c.hasher ∧
      (c.call call).1.map Outcome.result = call.source?.map (compile c.config) := by
  cases call with
  | request source =>
    have hrequests := h.requests source
    exact ⟨hrequests.settled h, hrequests.config_eq, hrequests.hasher_eq, congrArg some (hrequests.result h)⟩
  | clear => exact ⟨h.clear, rfl, rfl, rfl⟩

/-- A run keeps a cache settled, and its requests get what compiling gives. -/
theorem Settled.run {c : Cache} (h : c.Settled) (calls : List Call) :
    (c.run calls).2.Settled ∧ (c.run calls).2.config = c.config ∧ (c.run calls).2.hasher = c.hasher ∧
      (c.run calls).1.map (Option.map Outcome.result) = calls.map fun call => call.source?.map (compile c.config) := by
  induction calls generalizing c with
  | nil => exact ⟨h, rfl, rfl, rfl⟩
  | cons call calls ih =>
    obtain ⟨hsettled, hconfig, hhasher, hresult⟩ := h.call call
    obtain ⟨hlast, hconfig', hhasher', hresults⟩ := ih hsettled
    refine ⟨hlast, hconfig'.trans hconfig, hhasher'.trans hhasher, ?_⟩
    rw [hconfig] at hresults
    rw [Cache.run, List.map_cons, List.map_cons, hresult, hresults]

theorem new_eq_ok_iff {config : Config} {hasher : String → UInt64} {c : Cache} :
    Cache.new config hasher = .ok c ↔ config.check = .ok () ∧
      ∃ hpos, c = { config, hasher, done := .empty config.cacheCapacity hpos } := by
  unfold Cache.new
  rw [bind_eq_ok_iff]
  constructor
  · rintro ⟨⟨⟩, hcheck, h⟩
    split at h
    next hpos =>
      cases h
      exact ⟨hcheck, hpos, rfl⟩
    · cases h
  · rintro ⟨hcheck, hpos, rfl⟩
    exact ⟨(), hcheck, dif_pos hpos⟩

/-- A new cache is settled. -/
theorem settled_of_new {config : Config} {hasher : String → UInt64} {c : Cache}
    (h : Cache.new config hasher = .ok c) : c.Settled := by
  obtain ⟨-, hpos, rfl⟩ := new_eq_ok_iff.mp h
  exact ⟨rfl, rfl, nofun, nofun⟩

/-- In a settled cache no source has two entries: their keys would be the same. -/
theorem Settled.nodup_sources {c : Cache} (h : c.Settled) : (c.done.entries.map (·.2.source)).Nodup := by
  refine List.Nodup.of_map c.hasher ?_
  rw [List.map_map]
  have hkeys : c.done.entries.map (c.hasher ∘ (·.2.source)) = c.done.entries.map Prod.fst :=
    List.map_congr_left fun p hp => (h.key p hp).symm
  rw [hkeys]
  exact c.done.nodup_keys

/-- **A cache is transparent.** Let a cache be made, and calls one after the other. Each request is answered with
what compiling its source gives. After the calls, whichever they were, nothing is pending; every entry has a
result, which is what compiling its source gives; no source has two entries; and there are no more entries than the
configuration allows. -/
theorem run_transparent {config : Config} {hasher : String → UInt64} {c : Cache}
    (h : Cache.new config hasher = .ok c) (calls : List Call) :
    (c.run calls).1.map (Option.map Outcome.result) = calls.map (fun call => call.source?.map (compile config)) ∧
    (c.run calls).2.pending = [] ∧
    (∀ p ∈ (c.run calls).2.done.entries, ∃ o,
      (c.run calls).2.cells[p.2.cell]? = some (some o) ∧ o.result = compile config p.2.source) ∧
    ((c.run calls).2.done.entries.map (·.2.source)).Nodup ∧
    (c.run calls).2.size ≤ config.cacheCapacity := by
  obtain ⟨hlast, hconfig, -, hresults⟩ := (settled_of_new h).run calls
  have hsize := (c.run calls).2.done.length_le
  obtain ⟨-, hpos, rfl⟩ := new_eq_ok_iff.mp h
  have hfinished := hlast.finished
  rw [hlast.capacity] at hsize
  rw [hconfig] at hsize hfinished
  exact ⟨hresults, hlast.pending, hfinished, hlast.nodup_sources, hsize⟩

/-- A key for each of two sources. -/
def mainHasher (source : String) : UInt64 := if source = "main" then 0 else 1

theorem exists_new : ∃ c, Cache.new { cacheCapacity := 1 } mainHasher = .ok c :=
  ⟨_, new_eq_ok_iff.mpr ⟨by decide +kernel, Nat.one_pos, rfl⟩⟩

theorem exists_compile_error : ∃ e, compile { cacheCapacity := 1 } "main" = .error e := by
  have herror : (compile { cacheCapacity := 1 } "main").isOk = false := by decide +kernel
  cases h : compile { cacheCapacity := 1 } "main" with
  | error e => exact ⟨e, rfl⟩
  | ok out =>
    rw [h] at herror
    cases herror

/-- The same error is given at first, from the cache, and after clearing. -/
theorem run_transparent_main :
    ∃ c e, Cache.new { cacheCapacity := 1 } mainHasher = .ok c ∧
      compile { cacheCapacity := 1 } "main" = .error e ∧
      (c.run [.request "main", .request "main", .clear, .request "main"]).1.map (Option.map Outcome.result) =
        [some (.error e), some (.error e), none, some (.error e)] ∧
      (c.run [.request "main", .request "main", .clear, .request "main"]).2.pending = [] := by
  obtain ⟨c, hnew⟩ := exists_new
  obtain ⟨e, he⟩ := exists_compile_error
  obtain ⟨hresults, hpending, -⟩ := run_transparent hnew [.request "main", .request "main", .clear, .request "main"]
  simp only [List.map_cons, List.map_nil, Call.source?, Option.map_some, Option.map_none, he] at hresults
  exact ⟨c, e, hnew, he, hresults, hpending⟩

end Cache

end PoseLang
