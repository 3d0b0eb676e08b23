import DevopsCli.Ai.ResponseKey
import DevopsCli.Lib.Keyed
import DevopsCli.Lib.Run

/- LLMResponseCache of ai/response_cache.py: get, set, delete and clear over a dict in memory and
   the files of a directory. A response keeps what the cache reads of it and its content. The clock
   and the luck of the file system come from outside. -/
namespace DevopsCli.Ai.ResponseCache
open PyStr Run

structure CachedResponse where
  key : Str
  content : Str
  createdAt : ℚ
  lastAccessed : ℚ
  hitCount : Nat := 0
  deriving DecidableEq

structure Settings where
  enabled : Bool
  ttlSeconds : ℚ
  maxEntries : Int

/-- The dict of the cache, and the files by their stems. A file whose text is not a response holds
    none. -/
abbrev Memory := Keyed fun row : Str × CachedResponse => row.1
abbrev Disk := Keyed fun file : Str × Option CachedResponse => file.1

structure Cache where
  memory : Memory := {}
  disk : Disk := {}
  hits : Nat := 0
  misses : Nat := 0

structure FileSystem where
  writes : Bool := true
  reads : Bool := true
  lists : Bool := true
  unlinks : Str → Bool := fun _ => true
  mtime : Str → ℚ := fun _ => 0

def CachedResponse.isExpired (entry : CachedResponse) (ttlSeconds now : ℚ) : Bool :=
  if ttlSeconds ≤ 0 then false else decide (ttlSeconds < now - entry.createdAt)

def keyPrefix : Str := "llm_".toList
def hexLength : Nat := 64

def isHexCharacter (c : Char) : Bool :=
  ('0' ≤ c && c ≤ '9') || ('a' ≤ c && c ≤ 'f') || ('A' ≤ c && c ≤ 'F')

def isValidCacheKey (key : Str) : Bool :=
  if key.length ≠ keyPrefix.length + hexLength || !keyPrefix.isPrefixOf key then false
  else (key.drop keyPrefix.length).all isHexCharacter

section Files
variable (fs : FileSystem) (disk : Disk) (key : Str)

def glob : List Str := (disk.rows.map Prod.fst).filter keyPrefix.isPrefixOf

def unlinkAll (stems : List Str) : Disk :=
  disk.keep fun file => !(decide (file.1 ∈ stems) && fs.unlinks file.1)

def clearDiskCache : Disk × Nat :=
  if fs.lists then (unlinkAll fs disk (glob disk), (glob disk).countP fs.unlinks) else (disk, 0)

def evictExcessDiskFiles (maxEntries : Int) : Disk :=
  if fs.lists then
    let diskFiles := (glob disk).insertionSort fun a b => fs.mtime a ≤ fs.mtime b
    let excess := diskFiles.length - maxEntries
    if excess ≤ 0 then disk else unlinkAll fs disk (diskFiles.take excess.toNat)
  else disk

def saveToDisk (entry : CachedResponse) : Disk :=
  if isValidCacheKey entry.key && fs.writes then disk.put (entry.key, some entry) else disk

def deleteDiskFile : Disk :=
  if isValidCacheKey key then unlinkAll fs disk [key] else disk

def loadFromDisk : Option CachedResponse × Disk :=
  if isValidCacheKey key && fs.reads then
    match disk.lookup key with
    | some (_, some entry) =>
      if entry.key ≠ key then (none, deleteDiskFile fs disk key) else (some entry, disk)
    | some (_, none) => (none, disk)
    | none => (none, disk)
  else (none, disk)

end Files

section Calls
variable (s : Settings) (fs : FileSystem) (c : Cache) (key : Str)

def evictMemory (memory : Memory) (maxEntries : Int) : Memory :=
  if maxEntries < memory.rows.length then
    let sortedItems := memory.rows.insertionSort fun a b => a.2.lastAccessed ≤ b.2.lastAccessed
    let excess := (memory.rows.length - maxEntries).toNat
    let evicted := (sortedItems.take excess).map Prod.fst
    memory.keep fun row => row.1 ∉ evicted
  else memory

def enforceCapacity : Cache :=
  if s.maxEntries ≤ 0 then c
  else { c with
    memory := evictMemory c.memory s.maxEntries
    disk := evictExcessDiskFiles fs c.disk s.maxEntries }

def forget : Option CachedResponse × Cache :=
  (none, { c with
    memory := c.memory.keep fun row => row.1 ≠ key
    disk := deleteDiskFile fs c.disk key
    misses := c.misses + 1 })

def serve (disk : Disk) (entry : CachedResponse) (accessedAt : ℚ) :
    Option CachedResponse × Cache :=
  let entry := { entry with hitCount := entry.hitCount + 1, lastAccessed := accessedAt }
  (some entry, { c with
    memory := c.memory.put (key, entry)
    disk := saveToDisk fs disk entry
    hits := c.hits + 1 })

def get (checkedAt accessedAt : ℚ) : Option CachedResponse × Cache :=
  if !s.enabled || !isValidCacheKey key then (none, c)
  else
    match c.memory.lookup key with
    | some (_, cached) =>
      if cached.key ≠ key then forget fs c key
      else if cached.isExpired s.ttlSeconds checkedAt then forget fs c key
      else serve fs c key c.disk cached accessedAt
    | none =>
      match loadFromDisk fs c.disk key with
      | (some entry, disk) =>
        if entry.isExpired s.ttlSeconds checkedAt then
          (none, { c with disk := deleteDiskFile fs disk key, misses := c.misses + 1 })
        else serve fs c key disk entry accessedAt
      | (none, disk) => (none, { c with disk, misses := c.misses + 1 })

def delete : Cache :=
  if isValidCacheKey key then { c with
    memory := c.memory.keep fun row => row.1 ≠ key
    disk := deleteDiskFile fs c.disk key }
  else c

def set (content : Str) (createdAt accessedAt : ℚ) : CachedResponse × Cache :=
  let entry : CachedResponse := { key, content, createdAt, lastAccessed := accessedAt }
  if !s.enabled || !isValidCacheKey key then (entry, c)
  else (entry, enforceCapacity s fs { c with
    memory := c.memory.put (key, entry)
    disk := saveToDisk fs c.disk entry })

def clear : Cache × Nat :=
  let (disk, unlinked) := clearDiskCache fs c.disk
  ({ disk }, c.memory.rows.length + unlinked)

end Calls

section Runs

inductive Call where
  | get (key : Str) (checkedAt accessedAt : ℚ)
  | set (key content : Str) (createdAt accessedAt : ℚ)
  | delete (key : Str)
  | clear

abbrev Stored := Str × ℚ

def CachedResponse.stored (entry : CachedResponse) : Stored := (entry.content, entry.createdAt)

/-- The cache, and for each key the reply of the last set under it. -/
structure World where
  cache : Cache
  lastSet : Str → Option Stored

def onDisk (disk : Disk) (key : Str) : Option Stored :=
  (disk.lookup key).bind fun file =>
    file.2.bind fun entry => if entry.key = key then some entry.stored else none

def opened (disk : Disk) : World := ⟨{ disk }, onDisk disk⟩

def step (s : Settings) (w : World) (event : Call × FileSystem) : Option World :=
  let (call, fs) := event
  some <|
    match call with
    | .get key checkedAt accessedAt => { w with cache := (get s fs w.cache key checkedAt accessedAt).2 }
    | .set key content createdAt accessedAt =>
      { cache := (set s fs w.cache key content createdAt accessedAt).2
        lastSet := Function.update w.lastSet key (some (content, createdAt)) }
    | .delete key => { w with cache := delete fs w.cache key }
    | .clear => { w with cache := (clear fs w.cache).1 }

/-- A set that is stored is written, or no reply of its key is on disk. -/
def Written (s : Settings) (w : World) (event : Call × FileSystem) : Prop :=
  match event.1 with
  | .set key _ _ _ =>
    s.enabled = true → isValidCacheKey key = true → event.2.writes = false →
      onDisk w.cache.disk key = none
  | _ => True

end Runs

section Files
variable {fs : FileSystem} {disk disk' : Disk} {key : Str} {entry : CachedResponse} {stored : Stored}
  {file : Str × Option CachedResponse}

theorem onDisk_eq_some : onDisk disk key = some stored ↔
    ∃ entry, (key, some entry) ∈ disk ∧ entry.key = key ∧ entry.stored = stored := by
  unfold onDisk
  constructor
  · intro found
    obtain ⟨⟨stem, held⟩, here, found⟩ := Option.bind_eq_some_iff.mp found
    obtain ⟨entry, rfl, read⟩ := Option.bind_eq_some_iff.mp found
    obtain ⟨mem, rfl⟩ := Keyed.lookup_eq_some.mp here
    split at read
    · next own => exact ⟨entry, mem, own, Option.some.inj read⟩
    · cases read
  · rintro ⟨entry, mem, own, rfl⟩
    have here : disk.lookup key = some (key, some entry) := Keyed.lookup_eq_some.mpr ⟨mem, rfl⟩
    rw [here, Option.bind_some, Option.bind_some, if_pos own]

abbrev Fewer (disk' disk : Disk) : Prop := ∀ file ∈ disk', file ∈ disk

theorem fewer_keep (p : Str × Option CachedResponse → Bool) : Fewer (disk.keep p) disk :=
  fun _ mem => (Keyed.mem_keep.mp mem).1

theorem fewer_evict (maxEntries : Int) : Fewer (evictExcessDiskFiles fs disk maxEntries) disk := by
  unfold evictExcessDiskFiles
  dsimp only
  split
  · split
    · exact fun _ mem => mem
    · exact fewer_keep _
  · exact fun _ mem => mem

theorem fewer_delete : Fewer (deleteDiskFile fs disk key) disk := by
  unfold deleteDiskFile
  split
  · exact fewer_keep _
  · exact fun _ mem => mem

theorem fewer_load : Fewer (loadFromDisk fs disk key).2 disk := by
  unfold loadFromDisk
  split
  · split
    · split
      · exact fewer_delete
      · exact fun _ mem => mem
    · exact fun _ mem => mem
    · exact fun _ mem => mem
  · exact fun _ mem => mem

theorem fewer_clear : Fewer (clearDiskCache fs disk).1 disk := by
  unfold clearDiskCache
  split
  · exact fewer_keep _
  · exact fun _ mem => mem

theorem load_found (found : loadFromDisk fs disk key = (some entry, disk')) :
    entry.key = key ∧ onDisk disk key = some entry.stored := by
  unfold loadFromDisk at found
  split at found
  · split at found
    · next stem held here =>
      obtain ⟨mem, rfl⟩ := Keyed.lookup_eq_some.mp here
      split at found
      · cases found
      · next own =>
        cases found
        exact ⟨not_not.mp own, onDisk_eq_some.mpr ⟨entry, mem, not_not.mp own, rfl⟩⟩
    · cases found
    · cases found
  · cases found

theorem mem_saveToDisk (mem : file ∈ saveToDisk fs disk entry) :
    file = (entry.key, some entry) ∨ file ∈ disk := by
  unfold saveToDisk at mem
  split at mem
  · exact (Keyed.mem_put mem).imp_right And.left
  · exact .inr mem

end Files

/-- Every reply that the cache holds is the last one set under its key. -/
structure Sound (c : Cache) (lastSet : Str → Option Stored) : Prop where
  memory : ∀ row ∈ c.memory,
    isValidCacheKey row.1 = true ∧ row.2.key = row.1 ∧ lastSet row.1 = some row.2.stored
  disk : ∀ key stored, isValidCacheKey key = true → onDisk c.disk key = some stored →
    lastSet key = some stored

section Steps
variable {s : Settings} {fs : FileSystem} {c : Cache} {key content : Str} {entry : CachedResponse}
  {disk disk' : Disk} {lastSet : Str → Option Stored} {checkedAt accessedAt createdAt : ℚ}

theorem onDisk_fewer {stored : Stored} (fewer : Fewer disk' disk)
    (found : onDisk disk' key = some stored) : onDisk disk key = some stored := by
  obtain ⟨entry, mem, own, rfl⟩ := onDisk_eq_some.mp found
  exact onDisk_eq_some.mpr ⟨entry, fewer _ mem, own, rfl⟩

theorem Sound.less {c' : Cache} (sound : Sound c lastSet) (rows : ∀ row ∈ c'.memory, row ∈ c.memory)
    (files : Fewer c'.disk c.disk) : Sound c' lastSet :=
  ⟨fun row mem => sound.memory row (rows row mem),
    fun key stored valid found => sound.disk key stored valid (onDisk_fewer files found)⟩

theorem Sound.keep_memory (sound : Sound c lastSet) (p : Str × CachedResponse → Bool)
    (files : Fewer disk c.disk) (hits misses : Nat) :
    Sound ⟨c.memory.keep p, disk, hits, misses⟩ lastSet :=
  sound.less (fun _ mem => (Keyed.mem_keep.mp mem).1) files

theorem enforceCapacity_sound (sound : Sound c lastSet) :
    Sound (enforceCapacity s fs c) lastSet := by
  unfold enforceCapacity
  split
  · exact sound
  · refine sound.less ?_ (fewer_evict _)
    unfold evictMemory
    dsimp only
    split
    · exact fun _ mem => (Keyed.mem_keep.mp mem).1
    · exact fun _ mem => mem

theorem Sound.stored (sound : Sound c lastSet) (valid : isValidCacheKey entry.key = true)
    (last : lastSet entry.key = some entry.stored) (files : Fewer disk c.disk) (hits misses : Nat) :
    Sound ⟨c.memory.put (entry.key, entry), saveToDisk fs disk entry, hits, misses⟩ lastSet := by
  constructor
  · intro row mem
    rcases Keyed.mem_put mem with rfl | ⟨old, _⟩
    · exact ⟨valid, rfl, last⟩
    · exact sound.memory row old
  · intro k stored validKey found
    obtain ⟨held, mem, own, rfl⟩ := onDisk_eq_some.mp found
    rcases mem_saveToDisk mem with new | old
    · obtain ⟨rfl, same⟩ := Prod.mk.inj new
      cases same
      exact last
    · exact sound.disk k _ validKey (onDisk_eq_some.mpr ⟨held, files _ old, own, rfl⟩)

theorem serve_sound (sound : Sound c lastSet) (valid : isValidCacheKey entry.key = true)
    (last : lastSet entry.key = some entry.stored) (files : Fewer disk c.disk) :
    Sound (serve fs c entry.key disk entry accessedAt).2 lastSet := by
  let served : CachedResponse :=
    { entry with hitCount := entry.hitCount + 1, lastAccessed := accessedAt }
  have valid_ : isValidCacheKey served.key = true := valid
  have last_ : lastSet served.key = some served.stored := last
  exact sound.stored valid_ last_ files _ _

theorem get_sound (sound : Sound c lastSet) :
    Sound (get s fs c key checkedAt accessedAt).2 lastSet := by
  unfold get
  split
  · exact sound
  · next usable =>
    have valid : isValidCacheKey key = true := by simp_all
    split
    · next stem cached here =>
      obtain ⟨mem, rfl⟩ := Keyed.lookup_eq_some.mp here
      obtain ⟨_, own, last⟩ := sound.memory _ mem
      split
      · exact sound.keep_memory _ fewer_delete _ _
      · split
        · exact sound.keep_memory _ fewer_delete _ _
        · obtain rfl : cached.key = stem := own
          exact serve_sound sound valid last fun _ mem => mem
    · split
      · next entry disk found =>
        have fewer : Fewer disk c.disk := by
          have loaded : Fewer (loadFromDisk fs c.disk key).2 c.disk := fewer_load
          rwa [found] at loaded
        obtain ⟨rfl, onDisk_⟩ := load_found found
        have last := sound.disk _ _ valid onDisk_
        split
        · exact sound.less (fun _ mem => mem) fun file mem => fewer file (fewer_delete file mem)
        · exact serve_sound sound valid last fewer
      · next disk found =>
        have fewer : Fewer disk c.disk := by
          have loaded : Fewer (loadFromDisk fs c.disk key).2 c.disk := fewer_load
          rwa [found] at loaded
        exact sound.less (fun _ mem => mem) fewer

theorem set_sound (sound : Sound c lastSet) (enabled : s.enabled = true)
    (written : isValidCacheKey key = true → fs.writes = false → onDisk c.disk key = none) :
    Sound (set s fs c key content createdAt accessedAt).2
      (Function.update lastSet key (some (content, createdAt))) := by
  unfold set
  dsimp only
  split
  · next unusable =>
    -- the rows and the replies that are read are of valid keys, which this one is not
    have other : ∀ k, isValidCacheKey k = true → k ≠ key := by
      rintro k valid rfl
      simp [enabled, valid] at unusable
    refine ⟨fun row mem => ?_, fun k stored valid found => ?_⟩
    · obtain ⟨valid, own, last⟩ := sound.memory row mem
      exact ⟨valid, own, by rwa [Function.update_of_ne (other _ valid)]⟩
    · rw [Function.update_of_ne (other k valid)]
      exact sound.disk k stored valid found
  · next usable =>
    have valid : isValidCacheKey key = true := by simp_all
    apply enforceCapacity_sound
    constructor
    · intro row mem
      rcases Keyed.mem_put mem with rfl | ⟨old, other⟩
      · exact ⟨valid, rfl, Function.update_self ..⟩
      · obtain ⟨valid, own, last⟩ := sound.memory row old
        exact ⟨valid, own, by rwa [Function.update_of_ne other]⟩
    · intro k stored validKey found
      by_cases own : k = key
      · subst own
        rw [Function.update_self]
        cases writes : fs.writes with
        | true =>
          obtain ⟨held, mem, own, rfl⟩ := onDisk_eq_some.mp found
          rw [saveToDisk, valid, writes] at mem
          rcases Keyed.mem_put mem with new | ⟨_, other⟩
          · cases (Prod.mk.inj new).2
            rfl
          · exact absurd rfl other
        | false =>
          have none := written valid writes
          rw [saveToDisk, writes, Bool.and_false] at found
          exact absurd (none.symm.trans found) (by simp)
      · rw [Function.update_of_ne own]
        obtain ⟨held, mem, same, rfl⟩ := onDisk_eq_some.mp found
        rcases mem_saveToDisk mem with new | old
        · exact absurd (Prod.mk.inj new).1 own
        · exact sound.disk k _ validKey (onDisk_eq_some.mpr ⟨held, old, same, rfl⟩)

theorem step_sound {w w' : World} {event : Call × FileSystem} (enabled : s.enabled = true)
    (sound : Sound w.cache w.lastSet) (written : Written s w event)
    (stepped : step s w event = some w') : Sound w'.cache w'.lastSet := by
  obtain ⟨call, fs⟩ := event
  cases stepped
  cases call with
  | get key checkedAt accessedAt => exact get_sound sound
  | set key content createdAt accessedAt => exact set_sound sound enabled (written enabled)
  | delete key =>
    dsimp only
    unfold delete
    split
    · exact sound.keep_memory _ fewer_delete _ _
    · exact sound
  | clear =>
    refine sound.less (fun _ mem => ?_) fewer_clear
    cases mem

theorem opened_sound (disk : Disk) : Sound (opened disk).cache (opened disk).lastSet :=
  ⟨fun _ mem => (by cases mem), fun _ _ _ found => found⟩

theorem get_hit (sound : s.enabled = true → Sound c lastSet)
    (hit : (get s fs c key checkedAt accessedAt).1 = some entry) :
    lastSet key = some entry.stored ∧
      (s.ttlSeconds ≤ 0 ∨ checkedAt - entry.createdAt ≤ s.ttlSeconds) := by
  have fresh : ∀ e : CachedResponse, ¬e.isExpired s.ttlSeconds checkedAt = true →
      s.ttlSeconds ≤ 0 ∨ checkedAt - e.createdAt ≤ s.ttlSeconds := by
    intro e live
    unfold CachedResponse.isExpired at live
    split at live
    · next forever => exact .inl forever
    · exact .inr (not_lt.mp (by simpa using live))
  unfold get at hit
  split at hit
  · cases hit
  · next usable =>
    have both : s.enabled = true ∧ isValidCacheKey key = true := by simp_all
    have sound := sound both.1
    split at hit
    · next stem cached here =>
      obtain ⟨mem, rfl⟩ := Keyed.lookup_eq_some.mp here
      split at hit
      · cases hit
      · split at hit
        · cases hit
        · next live =>
          cases hit
          exact ⟨(sound.memory _ mem).2.2, fresh cached live⟩
    · split at hit
      · next entry disk found =>
        split at hit
        · cases hit
        · next live =>
          cases hit
          exact ⟨sound.disk _ _ both.2 (load_found found).2, fresh entry live⟩
      · cases hit

theorem run_sound {events : List (Call × FileSystem)} {w : World} (enabled : s.enabled = true)
    (run : exec (step s) (opened disk) events = some w)
    (written : Meets (step s) (Written s) (opened disk) events) : Sound w.cache w.lastSet :=
  exec_invariant (fun w => Sound w.cache w.lastSet)
    (fun _ _ _ sound written stepped => step_sound enabled sound written stepped)
    (opened_sound disk) written run

end Steps

section Law
variable {F : Type} (floats : Floats F) (case_ : Lowercase)

/-- The two halves: what a hit answers in a run, and which requests own their keys. -/
theorem cached_reply_answers_request (hexdigest : Str → Str)
    (injective : Function.Injective hexdigest) :
    (∀ (s : Settings) (disk : Disk) (events : List (Call × FileSystem)) (w : World),
      exec (step s) (opened disk) events = some w →
      Meets (step s) (Written s) (opened disk) events →
      ∀ fs key checkedAt accessedAt entry,
        (get s fs w.cache key checkedAt accessedAt).1 = some entry →
        w.lastSet key = some entry.stored ∧
          (s.ttlSeconds ≤ 0 ∨ checkedAt - entry.createdAt ≤ s.ttlSeconds)) ∧
    ∀ r : Request F,
      (∀ r' : Request F, generateKey floats case_ hexdigest r' = generateKey floats case_ hexdigest r →
        Alike case_ r' r) ↔ Unambiguous floats case_ r := by
  constructor
  · intro s disk events w run written fs key checkedAt accessedAt entry hit
    exact get_hit (fun enabled => run_sound enabled run written) hit
  · intro r
    rw [← own_iff]
    exact forall_congr' fun r' => by rw [key_eq_iff injective]

end Law

section Instances

theorem isSpace_toLower (c : Char) : isSpace c.toLower = isSpace c := by
  by_cases upper : c.isUpper
  · have range : 65 ≤ c.toNat ∧ c.toNat ≤ 90 := by
      simpa [Char.isUpper, UInt32.le_iff_toNat_le, ← Char.toNat_val] using upper
    have plain : ∀ n ∈ List.range 26, isSpace (Char.ofNat (n + 97)) = isSpace (Char.ofNat (n + 65)) := by
      decide +kernel
    have here := plain (c.toNat - 65) (List.mem_range.mpr (by omega))
    rw [Char.toLower_eq_of_isUpper upper]
    rwa [show c.toNat - 65 + 97 = c.toNat + 32 by omega, show c.toNat - 65 + 65 = c.toNat by omega,
      Char.ofNat_toNat] at here
  · rw [Char.toLower_eq_of_not_isUpper upper]

def ascii : Lowercase where
  lower text := text.map Char.toLower
  strip_lower text := by
    have trimmed := trimmed_strip text
    refine (trimmed_iff _).mp ⟨?_, ?_⟩
    · rw [List.head?_map]
      rintro _ first
      obtain ⟨c, here, rfl⟩ := Option.mem_map.mp first
      rw [isSpace_toLower]
      exact trimmed.1 c here
    · rw [List.getLast?_map]
      rintro _ last
      obtain ⟨c, here, rfl⟩ := Option.mem_map.mp last
      rw [isSpace_toLower]
      exact trimmed.2 c here
  settled text part inside := by
    refine (List.map_congr_left fun c mem => ?_).trans (List.map_id part)
    obtain ⟨d, _, rfl⟩ := List.mem_map.mp (inside c mem)
    exact Char.toLower_eq_of_not_isUpper (by simp)

def digestOf (text digest : Str) (other : Str) : Str := if other = text then digest else 'x' :: other

theorem digestOf_injective {text digest : Str} (unmarked : digest.head? ≠ some 'x') :
    Function.Injective (digestOf text digest) := by
  intro a b same
  unfold digestOf at same
  split at same <;> split at same
  · next first second => exact first.trans second.symm
  · exact absurd (congrArg List.head? same) unmarked
  · exact absurd (congrArg List.head? same).symm unmarked
  · exact (List.cons_eq_cons.mp same).2

def asked (body : Body) : Request Unit where
  provider := "Ollama".toList
  model := "qwen".toList
  system := []
  body := body

def greeting : Request Unit := asked (.prompt " hello".toList)

def sha256 : Str → Str := digestOf "ollama|qwen||hello".toList
  "19be545365210d1e0da2da9e2a683a0f5051c95bd4c1c39c3ab09dffb2814b15".toList

def greetingKey : Str := generateKey Json.zeroFloats ascii sha256 greeting

def hourly : Settings := ⟨true, 3600, 1⟩

def keyEnding (digit : Char) : Str := keyPrefix ++ List.replicate 63 '0' ++ [digit]

theorem uncut_of_not_mem {field : Str} (plain : '|' ∉ field) : ¬BarCut field := by
  rintro ⟨before, after, rfl, _⟩
  simp at plain

theorem greeting_unambiguous : Unambiguous Json.zeroFloats ascii greeting where
  bare := rfl
  prompt := ⟨_, rfl⟩
  some_ := by decide
  uncut := by
    have plain : ∀ field ∈ [greeting.providerText ascii, greeting.modelText ascii,
        strip greeting.system, greeting.body.text], '|' ∉ field := by decide +kernel
    exact fun field mem => uncut_of_not_mem (plain field mem)
  optionless := by
    intro before options some_ trimmed split
    have last := congrArg List.getLast? split
    rw [Options.text, Json.dumps, ← List.cons_append, ← List.append_assoc, List.getLast?_concat] at last
    revert last
    decide

/-- The reply to a greeting is set, and a hit within the hour gives it. -/
theorem cached_reply_answers_request_greeting :
    (∃ w, exec (step hourly) (opened {}) [(.set greetingKey "hi".toList 0 0, {})] = some w ∧
      (get hourly {} w.cache greetingKey 60 60).1.isSome = true ∧
      ∀ entry, (get hourly {} w.cache greetingKey 60 60).1 = some entry →
        w.lastSet greetingKey = some entry.stored) ∧
    ∀ r' : Request Unit, generateKey Json.zeroFloats ascii sha256 r' = greetingKey →
      Alike ascii r' greeting := by
  have law := cached_reply_answers_request Json.zeroFloats ascii sha256
    (digestOf_injective (by decide))
  constructor
  · refine ⟨_, rfl, by decide +kernel, fun entry hit => ?_⟩
    have written : Meets (step hourly) (Written hourly) (opened {})
        [(.set greetingKey "hi".toList 0 0, {})] := ⟨by simp [Written], fun _ _ => trivial⟩
    exact (law.1 hourly {} _ _ rfl written {} greetingKey 60 60 entry hit).1
  · exact (law.2 greeting).mpr greeting_unambiguous

def user (content : String) : ChatMessage := ⟨.user, content.toList⟩

def answered (s : Settings) (events : List (Call × FileSystem)) (key : Str) (at_ : ℚ) :
    Option (Option Stored × Option Stored) :=
  (exec (step s) (opened {}) events).map fun w =>
    ((get s {} w.cache key at_ at_).1.map CachedResponse.stored, w.lastSet key)

/-- Two lists of messages of one key. And a disk that is full: the second reply under a key is not
    written, leaves the memory, and the first one is served. -/
theorem other_reply_served :
    (∃ r r' : Request Unit, generateKey Json.zeroFloats ascii sha256 r' =
        generateKey Json.zeroFloats ascii sha256 r ∧ ¬Alike ascii r' r) ∧
    answered hourly
      [(.set (keyEnding '1') "old".toList 0 0, {}),
        (.set (keyEnding '1') "new".toList 1 1, { writes := false }),
        (.set (keyEnding '2') "other".toList 2 2, { writes := false })] (keyEnding '1') 3 =
      some (some ("old".toList, 0), some ("new".toList, 1)) := by
  constructor
  · refine ⟨asked (.messages [user "yes|assistant:no"]),
      asked (.messages [user "yes", ⟨.assistant, "no".toList⟩]), by decide +kernel, ?_⟩
    intro alike
    exact absurd alike.body (by decide)
  · decide +kernel

end Instances

end DevopsCli.Ai.ResponseCache
