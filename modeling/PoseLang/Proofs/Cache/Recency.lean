import Mathlib.Data.Finset.Card
import Mathlib.Data.List.TakeWhile
import Mathlib.Data.Set.Operations
import PoseLang.Proofs.Cache

/-!
# A cache keeps what was asked for last

Which sources have entries can be told from the calls alone. A source has one if it was asked for and, since the
last time, the cache was not cleared and fewer other sources were asked for than the capacity is (`Recent`). It does
not matter whether compiling it gave a motion or an error. A request for such a source gets the very result that was
given before; any other request is compiled.

The link between calls and entries is a list, `recency`: the sources since the cache was last cleared, each once, the
latest in front. The entries are the beginning of this list. It is assumed that the sources of a run have different
hashes.

What is proved:

* a source is among the first of the list if and only if it is recent (`mem_take_recency_iff`);
* one call does to the entries what it does to the list (`Follows.request`, `Follows.clear`), so after a run the
  entries are the beginning of the list (`follows_run`);
* hits, misses and the number of entries are those of a cache that keeps the recent sources
  (`reuses_iff_recent`).
-/

namespace PoseLang.Cache

/-! ### What calls ask for -/

/-- The sources that calls ask for, in order. -/
def sources (calls : List Call) : List String := calls.filterMap Call.source?

/-- The calls since the cache was last cleared, the latest first. -/
def sinceClear (calls : List Call) : List Call := calls.reverse.takeWhile (· ≠ .clear)

/-- The source was asked for, and since the last time the cache was not cleared and fewer than `n` other sources were
asked for. -/
def Recent (n : Nat) (source : String) (calls : List Call) : Prop :=
  ∃ before after, calls = before ++ .request source :: after ∧ .request source ∉ after ∧ .clear ∉ after ∧
    (sources after).toFinset.card < n

theorem mem_sources {source : String} {calls : List Call} : source ∈ sources calls ↔ .request source ∈ calls := by
  rw [sources, List.mem_filterMap]
  constructor
  · rintro ⟨call, hmem, hsource⟩
    cases call with
    | request s =>
      cases hsource
      exact hmem
    | clear => cases hsource
  · intro h
    exact ⟨_, h, rfl⟩

theorem mem_sources_append {source : String} {before : List Call} (h : source ∈ sources before) (after : List Call) :
    source ∈ sources (before ++ after) :=
  mem_sources.mpr (List.mem_append_left _ (mem_sources.mp h))

@[simp] theorem sinceClear_concat_request (calls : List Call) (source : String) :
    sinceClear (calls ++ [.request source]) = .request source :: sinceClear calls := by
  simp [sinceClear]

@[simp] theorem sinceClear_concat_clear (calls : List Call) : sinceClear (calls ++ [.clear]) = [] := by
  simp [sinceClear]

/-! ### The order of sources -/

/-- What a call does to the list of sources, the latest first. -/
def used (recent : List String) : Call → List String
  | .request source => source :: recent.filter (· ≠ source)
  | .clear => []

/-- The sources since the cache was last cleared, each once, the latest first. -/
def recency (calls : List Call) : List String := calls.foldl used []

@[simp] theorem recency_concat_request (calls : List Call) (source : String) :
    recency (calls ++ [.request source]) = source :: (recency calls).filter (· ≠ source) := by
  simp [recency, used]

@[simp] theorem recency_concat_clear (calls : List Call) : recency (calls ++ [.clear]) = [] := by
  simp [recency, used]

theorem nodup_recency (calls : List Call) : (recency calls).Nodup := by
  induction calls using List.reverseRecOn with
  | nil => exact .nil
  | append_singleton calls call ih =>
    cases call with
    | request source =>
      rw [recency_concat_request]
      exact List.nodup_cons.mpr ⟨by simp, ih.filter _⟩
    | clear => simp

theorem mem_recency {source : String} {calls : List Call} :
    source ∈ recency calls ↔ .request source ∈ sinceClear calls := by
  induction calls using List.reverseRecOn with
  | nil => simp [recency, sinceClear]
  | append_singleton calls call ih =>
    cases call with
    | request s =>
      by_cases hs : source = s
      · simp [hs]
      · simp [hs, ih]
    | clear => simp

theorem length_recency (calls : List Call) :
    (recency calls).length = (sources (sinceClear calls)).toFinset.card := by
  rw [← List.toFinset_card_of_nodup (nodup_recency calls)]
  congr 1
  ext source
  rw [List.mem_toFinset, List.mem_toFinset, mem_recency, mem_sources]

theorem sinceClear_of_not_mem {calls : List Call} (h : .clear ∉ calls) : sinceClear calls = calls.reverse := by
  refine List.takeWhile_eq_self_iff.mpr fun call hcall => decide_eq_true ?_
  rintro rfl
  exact h (List.mem_reverse.mp hcall)

/-- Sources that were asked for later come before those that were asked for earlier. -/
theorem recency_append (before : List Call) {after : List Call} (h : .clear ∉ after) :
    recency (before ++ after) = recency after ++ (recency before).filter (· ∉ sources after) := by
  induction after using List.reverseRecOn with
  | nil => simp [recency, sources]
  | append_singleton after call ih =>
    cases call with
    | request source =>
      have hafter : .clear ∉ after := fun hmem => h (List.mem_append_left _ hmem)
      rw [← List.append_assoc, recency_concat_request, ih hafter, recency_concat_request, List.filter_append,
        List.filter_filter, List.cons_append]
      congr 3
      funext s
      simp [sources, Call.source?, and_comm]
    | clear => simp at h

/-- The last time that a source was asked for. -/
theorem exists_of_mem_recency {source : String} {calls : List Call} (h : source ∈ recency calls) :
    ∃ before after, calls = before ++ .request source :: after ∧ .request source ∉ after ∧ .clear ∉ after := by
  induction calls using List.reverseRecOn with
  | nil => simp [recency] at h
  | append_singleton calls call ih =>
    cases call with
    | request s =>
      by_cases hs : source = s
      · subst hs
        exact ⟨calls, [], rfl, by simp, by simp⟩
      · obtain ⟨before, after, rfl, hsource, hclear⟩ := ih (by simpa [hs] using h)
        exact ⟨before, after ++ [.request s], by simp, by simp [hsource, hs], by simp [hclear]⟩
    | clear => simp at h

/-- In front of a source stand those that were asked for after it. -/
theorem recency_split (before : List Call) {source : String} {after : List Call} (hsource : .request source ∉ after)
    (hclear : .clear ∉ after) :
    ∃ rest, recency (before ++ .request source :: after) = recency after ++ source :: rest := by
  rw [List.append_cons, recency_append _ hclear, recency_concat_request,
    List.filter_cons_of_pos (by simpa [mem_sources] using hsource)]
  exact ⟨_, rfl⟩

/-- A source is among the first if and only if few were asked for after it. -/
theorem mem_take_recency_append_iff {n : Nat} {source : String} {before after : List Call}
    (hsource : .request source ∉ after) (hclear : .clear ∉ after) :
    source ∈ (recency (before ++ .request source :: after)).take n ↔ (sources after).toFinset.card < n := by
  obtain ⟨rest, hsplit⟩ := recency_split before hsource hclear
  have hcard : (recency after).length = (sources after).toFinset.card := by
    rw [length_recency, sinceClear_of_not_mem hclear, sources, List.filterMap_reverse, List.toFinset_reverse]
    rfl
  have hfront : source ∉ recency after := by
    rw [mem_recency, sinceClear_of_not_mem hclear, List.mem_reverse]
    exact hsource
  rw [hsplit, ← hcard, List.take_append]
  constructor
  · intro hmem
    by_contra hle
    rw [Nat.sub_eq_zero_of_le (Nat.le_of_not_lt hle), List.take_zero, List.append_nil] at hmem
    exact hfront (List.mem_of_mem_take hmem)
  · intro hlt
    obtain ⟨k, hk⟩ := Nat.exists_eq_succ_of_ne_zero (Nat.sub_ne_zero_of_lt hlt)
    rw [hk, List.take_succ_cons]
    simp

/-- A source is among the first if and only if it is recent. -/
theorem mem_take_recency_iff {n : Nat} {source : String} {calls : List Call} :
    source ∈ (recency calls).take n ↔ Recent n source calls := by
  constructor
  · intro hmem
    obtain ⟨before, after, rfl, hsource, hclear⟩ := exists_of_mem_recency (List.mem_of_mem_take hmem)
    exact ⟨before, after, rfl, hsource, hclear, (mem_take_recency_append_iff hsource hclear).mp hmem⟩
  · rintro ⟨before, after, rfl, hsource, hclear, hcard⟩
    exact (mem_take_recency_append_iff hsource hclear).mpr hcard

/-! ### Calls and entries -/

/-- Putting a source in front of the first `n` of a list is putting it in front of the list. -/
theorem take_cons_filter_take {l : List String} (h : l.Nodup) (n : Nat) (source : String) :
    (source :: (l.take n).filter (· ≠ source)).take n = (source :: l.filter (· ≠ source)).take n := by
  cases n with
  | zero => rfl
  | succ n =>
    rw [List.take_succ_cons, List.take_succ_cons]
    congr 1
    -- The source stands in the list once, so one place more is enough for `n` others.
    induction l generalizing n with
    | nil => rfl
    | cons a l ih =>
      obtain ⟨ha, hl⟩ := List.nodup_cons.mp h
      rw [List.take_succ_cons]
      by_cases has : a = source
      · subst has
        have hother {m : List String} (hm : m ⊆ l) : m.filter (· ≠ a) = m := by
          refine List.filter_eq_self.mpr fun b hb => decide_eq_true ?_
          rintro rfl
          exact ha (hm hb)
        rw [List.filter_cons_of_neg (by simp), List.filter_cons_of_neg (by simp), hother (List.take_subset n l),
          hother (List.Subset.refl l), List.take_take, Nat.min_self]
      · rw [List.filter_cons_of_pos (by simpa using has), List.filter_cons_of_pos (by simpa using has)]
        cases n with
        | zero => rfl
        | succ n => rw [List.take_succ_cons, List.take_succ_cons, ih hl n]

/-- How a cache stands after calls with these answers: its entries are the sources that were used last, each has a
result that was an answer for its source, and every result so far has a number of its own. -/
structure Follows (c : Cache) (calls : List Call) (answers : List (Option Outcome)) : Prop where
  settled : c.Settled
  order : c.done.entries.map (·.2.source) = (recency calls).take c.done.capacity
  answered : ∀ p ∈ c.done.entries, ∃ o, c.cells[p.2.cell]? = some (some o) ∧
    (.request p.2.source, some o) ∈ calls.zip answers
  serial_lt : ∀ o, some o ∈ answers → o.serial < c.compiles
  length_eq : calls.length = answers.length

namespace Follows

variable {c : Cache} {calls : List Call} {answers : List (Option Outcome)}

theorem zip_concat (h : Follows c calls answers) (call : Call) (answer : Option Outcome) :
    (calls ++ [call]).zip (answers ++ [answer]) = calls.zip answers ++ [(call, answer)] := by
  rw [List.zip_append h.length_eq]
  rfl

theorem length_concat (h : Follows c calls answers) (call : Call) (answer : Option Outcome) :
    (calls ++ [call]).length = (answers ++ [answer]).length := by
  simp [h.length_eq]

theorem mem_sources_of_mem (h : Follows c calls answers) {p : UInt64 × CacheEntry} (hp : p ∈ c.done.entries) :
    p.2.source ∈ sources calls := by
  obtain ⟨o, -, hanswer⟩ := h.answered p hp
  exact mem_sources.mpr (List.of_mem_zip hanswer).1

/-- What the cell of an entry holds was an answer for its source. -/
theorem mem_zip_of_cell (h : Follows c calls answers) {p : UInt64 × CacheEntry} (hp : p ∈ c.done.entries) {o : Outcome}
    (ho : c.cells[p.2.cell]? = some (some o)) : (.request p.2.source, some o) ∈ calls.zip answers := by
  obtain ⟨o', ho', hanswer⟩ := h.answered p hp
  obtain rfl : o = o' := by simpa [ho] using ho'
  exact hanswer

/-- Among sources with different hashes, an entry stands under the key of a source only if it is its own. -/
theorem source_eq_of_key (h : Follows c calls answers) {source : String}
    (hhash : ∀ s ∈ sources calls, c.hasher s = c.hasher source → s = source) {p : UInt64 × CacheEntry}
    (hp : p ∈ c.done.entries) : p.1 = c.hasher source ↔ p.2.source = source := by
  rw [h.settled.key p hp]
  constructor
  · exact hhash _ (h.mem_sources_of_mem hp)
  · rintro rfl
    rfl

/-- Using an entry does to the sources of the entries what a request does to the list of sources. -/
theorem order_put (h : Follows c calls answers) {source : String}
    (hhash : ∀ s ∈ sources calls, c.hasher s = c.hasher source → s = source) {e : CacheEntry}
    (he : e.source = source) :
    (c.done.put (c.hasher source) e).entries.map (·.2.source) =
      (recency (calls ++ [.request source])).take c.done.capacity := by
  have hothers : (c.done.entries.filter (·.1 ≠ c.hasher source)).map (·.2.source) =
      (c.done.entries.map (·.2.source)).filter (· ≠ source) := by
    rw [List.filter_map]
    congr 1
    refine List.filter_congr fun p hp => ?_
    simp [h.source_eq_of_key hhash hp]
  rw [recency_concat_request, ← take_cons_filter_take (nodup_recency calls), ← h.order, ← hothers]
  simp [Lru.put, Lru.putEntries, List.map_take, he]

/-- A request for a source, if none before had its hash. -/
theorem request (h : Follows c calls answers) {source : String}
    (hhash : ∀ s ∈ sources calls, c.hasher s = c.hasher source → s = source) :
    Follows (c.request source).2 (calls ++ [.request source]) (answers ++ [some (c.request source).1]) := by
  have hrequests := h.settled.requests source
  have hsettled := hrequests.settled h.settled
  have hlength := h.length_concat (.request source) (some (c.request source).1)
  generalize c.request source = r at hrequests hsettled hlength ⊢
  have hzip := h.zip_concat (.request source) (some r.1)
  cases hrequests with
  | @hit e o he hsource ho =>
    have hserial : o.serial < c.compiles := h.serial_lt o (List.of_mem_zip (h.mem_zip_of_cell he ho)).2
    refine ⟨hsettled, h.order_put hhash hsource, fun p hp => ?_, fun o' ho' => ?_, hlength⟩
    · obtain ⟨o', ho', hanswer⟩ := h.answered p (Lru.mem_of_mem_put_of_mem he hp)
      rw [hzip]
      exact ⟨o', ho', List.mem_append_left _ hanswer⟩
    · rcases List.mem_append.mp ho' with ho' | ho'
      · exact h.serial_lt o' ho'
      · obtain rfl : o' = o := by simpa using ho'
        exact hserial
  | @collision e he hsource => exact absurd ((h.source_eq_of_key hhash he).mp rfl) hsource
  | miss =>
    refine ⟨hsettled, h.order_put hhash rfl, fun p hp => ?_, fun o' ho' => ?_, hlength⟩
    · rw [hzip]
      rcases Lru.mem_of_mem_put hp with rfl | hp
      · exact ⟨_, Array.getElem?_push_size, List.mem_append_right _ (List.mem_singleton_self _)⟩
      · obtain ⟨o', ho', hanswer⟩ := h.answered p hp
        exact ⟨o', getElem?_push_of_eq_some ho', List.mem_append_left _ hanswer⟩
    · rcases List.mem_append.mp ho' with ho' | ho'
      · exact Nat.lt_succ_of_lt (h.serial_lt o' ho')
      · obtain rfl : o' = ⟨compile c.config source, c.compiles⟩ := by simpa using ho'
        exact Nat.lt_succ_self _

/-- Clearing. -/
theorem clear (h : Follows c calls answers) : Follows c.clear (calls ++ [.clear]) (answers ++ [none]) where
  settled := h.settled.clear
  order := by simp [Cache.clear]
  answered := nofun
  serial_lt := fun o ho => h.serial_lt o (by simpa using ho)
  length_eq := h.length_concat .clear none

end Follows

theorem run_concat (c : Cache) (calls : List Call) (call : Call) :
    c.run (calls ++ [call]) =
      ((c.run calls).1 ++ [((c.run calls).2.call call).1], ((c.run calls).2.call call).2) := by
  induction calls generalizing c with
  | nil => rfl
  | cons first calls ih =>
    rw [List.cons_append, Cache.run]
    simp only [ih]
    rfl

/-- A new cache, before any call. -/
theorem follows_of_new {config : Config} {hasher : String → UInt64} {c : Cache}
    (hnew : Cache.new config hasher = .ok c) : Follows c [] [] := by
  have hsettled := settled_of_new hnew
  obtain ⟨-, hpos, rfl⟩ := new_eq_ok_iff.mp hnew
  exact ⟨hsettled, List.take_nil.symm, nofun, by simp, rfl⟩

/-- After a run of calls whose sources have different hashes. -/
theorem follows_run {config : Config} {hasher : String → UInt64} {c : Cache} (hnew : Cache.new config hasher = .ok c)
    {calls : List Call} (hhash : Set.InjOn hasher { source | source ∈ sources calls }) :
    Follows (c.run calls).2 calls (c.run calls).1 := by
  induction calls using List.reverseRecOn with
  | nil => exact follows_of_new hnew
  | append_singleton calls call ih =>
    have hfollows := ih (hhash.mono fun s hs => mem_sources_append hs [call])
    have hrun := ((settled_of_new hnew).run calls).2.2.1
    have hhasher : c.hasher = hasher := by
      obtain ⟨-, hpos, rfl⟩ := new_eq_ok_iff.mp hnew
      rfl
    rw [run_concat]
    cases call with
    | request source =>
      rw [call]
      refine hfollows.request fun s hs heq => ?_
      rw [hrun, hhasher] at heq
      exact hhash (mem_sources_append hs _) (mem_sources.mpr (by simp)) heq
    | clear =>
      rw [call]
      exact hfollows.clear

/-! ### Hits and misses -/

/-- A request for the source after these calls gets the result that an earlier request for it got, and nothing is
compiled. -/
def Reuses (c : Cache) (calls : List Call) (source : String) : Prop :=
  (.request source, some ((c.run calls).2.request source).1) ∈ calls.zip (c.run calls).1 ∧
    ((c.run calls).2.request source).2.compiles = (c.run calls).2.compiles

/-- A request for the source after these calls is compiled, and gets a result that no earlier request got. -/
def CompilesAnew (c : Cache) (calls : List Call) (source : String) : Prop :=
  (∀ o, some o ∈ (c.run calls).1 → o.serial ≠ ((c.run calls).2.request source).1.serial) ∧
    ((c.run calls).2.request source).2.compiles = (c.run calls).2.compiles + 1

theorem not_reuses_of_compilesAnew {c : Cache} {calls : List Call} {source : String}
    (h : CompilesAnew c calls source) : ¬ Reuses c calls source := by
  rintro ⟨-, hcompiles⟩
  have hanew := h.2
  omega

namespace Follows

variable {c : Cache} {calls : List Call} {source : String} (h : Follows (c.run calls).2 calls (c.run calls).1)

include h

theorem reuses (hentry : source ∈ (c.run calls).2.done.entries.map (·.2.source)) : Reuses c calls source := by
  have hrequests := h.settled.requests source
  unfold Reuses
  generalize (c.run calls).2.request source = r at hrequests ⊢
  obtain ⟨p, hp, rfl⟩ := List.mem_map.mp hentry
  have hkey := h.settled.key p hp
  cases hrequests with
  | @hit e o he hsource ho =>
    have hanswer := h.mem_zip_of_cell he ho
    rw [hsource] at hanswer
    exact ⟨hanswer, rfl⟩
  | @collision e he hsource =>
    rw [← hkey] at he
    have hsame := Option.some.inj ((lookup_of_mem (c.run calls).2.done.nodup_keys he).symm.trans
      (lookup_of_mem (c.run calls).2.done.nodup_keys hp))
    exact absurd (congrArg CacheEntry.source hsame) hsource
  | miss hfree => exact absurd hkey (hfree p hp)

theorem compilesAnew (hentry : source ∉ (c.run calls).2.done.entries.map (·.2.source)) :
    CompilesAnew c calls source := by
  have hrequests := h.settled.requests source
  unfold CompilesAnew
  generalize (c.run calls).2.request source = r at hrequests ⊢
  cases hrequests with
  | @hit e o he hsource ho => exact absurd (List.mem_map.mpr ⟨_, he, hsource⟩) hentry
  | collision => exact ⟨fun o ho => (h.serial_lt o ho).ne, rfl⟩
  | miss => exact ⟨fun o ho => (h.serial_lt o ho).ne, rfl⟩

end Follows

/-- **A cache keeps exactly what was asked for last.** Let a cache be made, and calls one after the other whose
sources have different hashes. A request gets the result of an earlier request for its source, with nothing compiled,
if and only if the source is recent among the calls before it; otherwise it is compiled anew. At any time the sources
with entries are the recent ones, whatever compiling them gave, and there are as many entries as different sources
were asked for since the cache was last cleared, up to the capacity. -/
theorem reuses_iff_recent {config : Config} {hasher : String → UInt64} {c : Cache}
    (hnew : Cache.new config hasher = .ok c) {calls : List Call}
    (hhash : Set.InjOn hasher { source | source ∈ sources calls }) :
    (∀ before source after, calls = before ++ .request source :: after →
      (Reuses c before source ↔ Recent config.cacheCapacity source before) ∧
      (CompilesAnew c before source ↔ ¬ Recent config.cacheCapacity source before)) ∧
    (∀ before after, calls = before ++ after →
      (∀ source, source ∈ (c.run before).2.done.entries.map (·.2.source) ↔
        Recent config.cacheCapacity source before) ∧
      (c.run before).2.size = min config.cacheCapacity (sources (sinceClear before)).toFinset.card) := by
  have hfollows {before after : List Call} (hcalls : calls = before ++ after) :
      Follows (c.run before).2 before (c.run before).1 := by
    subst hcalls
    exact follows_run hnew (hhash.mono fun s hs => mem_sources_append hs after)
  have hcapacity (before : List Call) : (c.run before).2.done.capacity = config.cacheCapacity := by
    obtain ⟨hsettled, hconfig, -⟩ := (settled_of_new hnew).run before
    rw [hsettled.capacity, hconfig]
    obtain ⟨-, hpos, rfl⟩ := new_eq_ok_iff.mp hnew
    rfl
  have hentries {before after : List Call} (hcalls : calls = before ++ after) (source : String) :
      source ∈ (c.run before).2.done.entries.map (·.2.source) ↔ Recent config.cacheCapacity source before := by
    rw [(hfollows hcalls).order, hcapacity, mem_take_recency_iff]
  refine ⟨fun before source after hcalls => ?_, fun before after hcalls => ⟨hentries hcalls, ?_⟩⟩
  · have h := hfollows hcalls
    rw [← hentries hcalls]
    by_cases hentry : source ∈ (c.run before).2.done.entries.map (·.2.source)
    · have hreuses := h.reuses hentry
      exact ⟨iff_of_true hreuses hentry, iff_of_false (fun hanew => not_reuses_of_compilesAnew hanew hreuses)
        (not_not_intro hentry)⟩
    · have hanew := h.compilesAnew hentry
      exact ⟨iff_of_false (not_reuses_of_compilesAnew hanew) hentry, iff_of_true hanew hentry⟩
  · have hlength := congrArg List.length (hfollows hcalls).order
    rw [List.length_map, List.length_take, hcapacity, length_recency] at hlength
    exact hlength

/-- With room for one result, a text that does not compile takes the place of one that does. -/
theorem compilesAnew_displaced :
    ∃ c e, Cache.new { cacheCapacity := 1 } mainHasher = .ok c ∧
      compile { cacheCapacity := 1 } "main" = .error e ∧
      Reuses c [.request "main \x7b \x7d", .request "main"] "main" ∧
      CompilesAnew c [.request "main \x7b \x7d", .request "main", .request "main"] "main \x7b \x7d" ∧
      (c.run [.request "main \x7b \x7d", .request "main"]).2.size = 1 := by
  obtain ⟨c, hnew⟩ := exists_new
  obtain ⟨e, he⟩ := exists_compile_error
  let calls : List Call := [.request "main \x7b \x7d", .request "main", .request "main", .request "main \x7b \x7d"]
  have hhash : Set.InjOn mainHasher { source | source ∈ sources calls } := by
    have hinj : ∀ s ∈ sources calls, ∀ t ∈ sources calls, mainHasher s = mainHasher t → s = t := by decide +kernel
    exact fun s hs t ht => hinj s hs t ht
  obtain ⟨hrequests, hentries⟩ := reuses_iff_recent hnew hhash
  have hmain : Recent 1 "main" [.request "main \x7b \x7d", .request "main"] := mem_take_recency_iff.mp (by decide)
  have hother : ¬ Recent 1 "main \x7b \x7d" [.request "main \x7b \x7d", .request "main", .request "main"] :=
    mem_take_recency_iff.not.mp (by decide)
  have hreuses := (hrequests [.request "main \x7b \x7d", .request "main"] "main" [.request "main \x7b \x7d"] rfl).1
  have hanew := (hrequests [.request "main \x7b \x7d", .request "main", .request "main"] "main \x7b \x7d" [] rfl).2
  have hsize := (hentries [.request "main \x7b \x7d", .request "main"] [.request "main", .request "main \x7b \x7d"] rfl).2
  exact ⟨c, e, hnew, he, hreuses.mpr hmain, hanew.mpr hother, hsize⟩

end PoseLang.Cache
