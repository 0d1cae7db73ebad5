import Rids.Cli.Configuration

/-!
# The objects over a run

The objects refer to each other: a port to a device, a queue of it and a profile, a table to a
profile, a connection to a port and a table. `Sound` is that all of these are there.

* `configuration_run` — after any run of commands, whatever the library answers, all references
  are good, nothing that was there is gone, and objects of a kind have different names where no
  command gives a name that has to be cut.
-/

namespace Rids.Cli

open Rids.Lib Rids.Pipeline

/-! ### What the objects refer to -/

namespace Configuration

variable (c : Configuration)

/-- There is the device that a port reads from, and the queue of it. -/
def Reads : Reader → Prop
  | .ethdev portId queueId => ∃ link ∈ c.links, link.portId = portId ∧ queueId < link.nRxq
  | .ring r => ∃ swq ∈ c.swqs, swq.r = r
  | .sched s => ∃ tmgrPort ∈ c.tmgrPorts, tmgrPort.s = s
  | .fd fd m _ => (∃ tap ∈ c.taps, tap.fd = fd) ∧ ∃ mempool ∈ c.mempools, mempool.m = m
  | .kni k => ∃ kni ∈ c.knis, kni.k = k
  | .source m _ _ => ∃ mempool ∈ c.mempools, mempool.m = m
  | .symCrypto devId queueId =>
    ∃ cryptodev ∈ c.cryptodevs, cryptodev.devId = devId ∧ queueId < cryptodev.nQueues

/-- There is the device that a port writes to, and the queue of it. -/
def Writes : Writer → Prop
  | .ethdev portId queueId => ∃ link ∈ c.links, link.portId = portId ∧ queueId < link.nTxq
  | .ring r => ∃ swq ∈ c.swqs, swq.r = r
  | .sched s => ∃ tmgrPort ∈ c.tmgrPorts, tmgrPort.s = s
  | .fd fd => ∃ tap ∈ c.taps, tap.fd = fd
  | .kni k => ∃ kni ∈ c.knis, kni.k = k
  | .sink _ => True
  | .symCrypto devId queueId _ =>
    ∃ cryptodev ∈ c.cryptodevs, cryptodev.devId = devId ∧ queueId < cryptodev.nQueues

end Configuration

/-- All that a pipeline refers to is there. -/
structure PipelineObject.Sound (c : Configuration) (p : PipelineObject) : Prop where
  portIn : ∀ x ∈ p.portIn, c.Reads x.reader
  portInProfile : ∀ x ∈ p.portIn, ∀ ap ∈ x.ap, ap ∈ c.portInActionProfiles
  portOut : ∀ w ∈ p.portOut, c.Writes w
  table : ∀ t ∈ p.table, tableMatchOk t.tableMatch
  tableProfile : ∀ t ∈ p.table, ∀ ap ∈ t.ap, ap ∈ c.tableActionProfiles
  tableMax : p.table.length ≤ Threads.rtePipelineTableMax
  connected : ∀ x ∈ p.connected, x.1 < p.portIn.length ∧ x.2 < p.table.length

/-- The objects are as they must be. -/
structure Configuration.Sound (c : Configuration) : Prop where
  links : ∀ link ∈ c.links, 0 < link.nRxq ∧ 0 < link.nTxq
  tmgrPorts : ∀ t ∈ c.tmgrPorts, 0 < t.nSubportsPerPort ∧ 0 < t.nPipesPerSubport
  cryptodevs : ∀ cryptodev ∈ c.cryptodevs, 0 < cryptodev.nQueues
  portInActionProfiles : ∀ a ∈ c.portInActionProfiles, ∀ lb ∈ a.params.lb,
    lb.keySize ∈ hashKeySizes
  tableActionProfiles : ∀ a ∈ c.tableActionProfiles, ∀ lb ∈ a.params.lb, lb.keySize ∈ hashKeySizes
  pipelines : ∀ p ∈ c.pipelines, p.Sound c

/-- Devices and profiles are added behind those that are there. -/
structure Configuration.DevicesGrow (c c' : Configuration) : Prop where
  mempools : c.mempools <+: c'.mempools
  links : c.links <+: c'.links
  swqs : c.swqs <+: c'.swqs
  subportProfiles : c.subportProfiles <+: c'.subportProfiles
  pipeProfiles : c.pipeProfiles <+: c'.pipeProfiles
  tmgrPorts : c.tmgrPorts <+: c'.tmgrPorts
  taps : c.taps <+: c'.taps
  knis : c.knis <+: c'.knis
  cryptodevs : c.cryptodevs <+: c'.cryptodevs
  portInActionProfiles : c.portInActionProfiles <+: c'.portInActionProfiles
  tableActionProfiles : c.tableActionProfiles <+: c'.tableActionProfiles

/-- Ports, tables and connections are added behind those that are there. -/
structure PipelineObject.Grows (p p' : PipelineObject) : Prop where
  name : p'.name = p.name
  handle : p'.p = p.p
  portIn : p.portIn <+: p'.portIn
  portOut : p.portOut <+: p'.portOut
  table : p.table <+: p'.table
  connected : p.connected <+: p'.connected

/-- Nothing is lost: the pipeline that is found under a name is found there again. -/
structure Configuration.Grows (c c' : Configuration) : Prop where
  devices : c.DevicesGrow c'
  pipelines : ∀ name p, pipelineFind c name = some p →
    ∃ p', pipelineFind c' name = some p' ∧ p.Grows p'

/-- No two objects of a kind have one name. -/
structure Configuration.Named (c : Configuration) : Prop where
  mempools : KeyedList.Distinct Mempool.name c.mempools
  links : KeyedList.Distinct Link.name c.links
  swqs : KeyedList.Distinct Swq.name c.swqs
  tmgrPorts : KeyedList.Distinct TmgrPort.name c.tmgrPorts
  taps : KeyedList.Distinct Tap.name c.taps
  knis : KeyedList.Distinct Kni.name c.knis
  cryptodevs : KeyedList.Distinct Cryptodev.name c.cryptodevs
  portInActionProfiles : KeyedList.Distinct PortInActionProfile.name c.portInActionProfiles
  tableActionProfiles : KeyedList.Distinct TableActionProfile.name c.tableActionProfiles
  pipelines : KeyedList.Distinct PipelineObject.name c.pipelines

/-- The name of an object that a command creates. -/
def ConfigCommand.newName : ConfigCommand → Option String
  | .mempool name _ => some name
  | .link name _ => some name
  | .swq name _ => some name
  | .tmgr name _ => some name
  | .tap name => some name
  | .kni name _ => some name
  | .cryptodev name _ => some name
  | .portInActionProfile name _ => some name
  | .tableActionProfile name _ => some name
  | .pipeline name _ => some name
  | _ => none

/-! ### Growing -/

section Growing

variable {c c' c'' : Configuration} {p p' p'' : PipelineObject}

/-- The devices grow from themselves. -/
theorem Configuration.DevicesGrow.refl (c : Configuration) : c.DevicesGrow c where
  mempools := List.prefix_rfl
  links := List.prefix_rfl
  swqs := List.prefix_rfl
  subportProfiles := List.prefix_rfl
  pipeProfiles := List.prefix_rfl
  tmgrPorts := List.prefix_rfl
  taps := List.prefix_rfl
  knis := List.prefix_rfl
  cryptodevs := List.prefix_rfl
  portInActionProfiles := List.prefix_rfl
  tableActionProfiles := List.prefix_rfl

/-- Growth of the devices composes. -/
theorem Configuration.DevicesGrow.trans (h : c.DevicesGrow c') (h' : c'.DevicesGrow c'') :
    c.DevicesGrow c'' where
  mempools := h.mempools.trans h'.mempools
  links := h.links.trans h'.links
  swqs := h.swqs.trans h'.swqs
  subportProfiles := h.subportProfiles.trans h'.subportProfiles
  pipeProfiles := h.pipeProfiles.trans h'.pipeProfiles
  tmgrPorts := h.tmgrPorts.trans h'.tmgrPorts
  taps := h.taps.trans h'.taps
  knis := h.knis.trans h'.knis
  cryptodevs := h.cryptodevs.trans h'.cryptodevs
  portInActionProfiles := h.portInActionProfiles.trans h'.portInActionProfiles
  tableActionProfiles := h.tableActionProfiles.trans h'.tableActionProfiles

/-- The devices do not depend on the pipelines. -/
theorem Configuration.devicesGrow_pipelines (c : Configuration) (ps : List PipelineObject) :
    c.DevicesGrow { c with pipelines := ps } := { Configuration.DevicesGrow.refl c with }

/-- A pipeline grows from itself. -/
theorem PipelineObject.Grows.refl (p : PipelineObject) : p.Grows p where
  name := rfl
  handle := rfl
  portIn := List.prefix_rfl
  portOut := List.prefix_rfl
  table := List.prefix_rfl
  connected := List.prefix_rfl

/-- Growth of a pipeline composes. -/
theorem PipelineObject.Grows.trans (h : p.Grows p') (h' : p'.Grows p'') : p.Grows p'' where
  name := h'.name.trans h.name
  handle := h'.handle.trans h.handle
  portIn := h.portIn.trans h'.portIn
  portOut := h.portOut.trans h'.portOut
  table := h.table.trans h'.table
  connected := h.connected.trans h'.connected

/-- A configuration grows from itself. -/
theorem Configuration.Grows.refl (c : Configuration) : c.Grows c where
  devices := .refl c
  pipelines _ p hp := ⟨p, hp, .refl p⟩

/-- Growth of a configuration composes. -/
theorem Configuration.Grows.trans (h : c.Grows c') (h' : c'.Grows c'') : c.Grows c'' where
  devices := h.devices.trans h'.devices
  pipelines name p hp := by
    obtain ⟨p', hp', hgrows⟩ := h.pipelines name p hp
    obtain ⟨p'', hp'', hgrows'⟩ := h'.pipelines name p' hp'
    exact ⟨p'', hp'', hgrows.trans hgrows'⟩

/-- A member stays one when the list grows at its end. -/
theorem exists_mem_mono {α : Type} {l l' : List α} {P : α → Prop} (h : l <+: l')
    (hx : ∃ x ∈ l, P x) : ∃ x ∈ l', P x := by
  obtain ⟨x, hmem, hP⟩ := hx
  exact ⟨x, h.subset hmem, hP⟩

/-- A reader of a device stays one while the devices grow. -/
theorem Configuration.Reads.mono {r : Reader} (h : c.Reads r) (hg : c.DevicesGrow c') :
    c'.Reads r := by
  rcases r with ⟨portId, queueId⟩ | r | s | ⟨fd, m, mtu⟩ | k | ⟨m, file, n⟩ | ⟨devId, queueId⟩
  · exact exists_mem_mono hg.links h
  · exact exists_mem_mono hg.swqs h
  · exact exists_mem_mono hg.tmgrPorts h
  · exact ⟨exists_mem_mono hg.taps h.1, exists_mem_mono hg.mempools h.2⟩
  · exact exists_mem_mono hg.knis h
  · exact exists_mem_mono hg.mempools h
  · exact exists_mem_mono hg.cryptodevs h

/-- A writer of a device stays one while the devices grow. -/
theorem Configuration.Writes.mono {w : Writer} (h : c.Writes w) (hg : c.DevicesGrow c') :
    c'.Writes w := by
  rcases w with ⟨portId, queueId⟩ | r | s | fd | k | file | ⟨devId, queueId, offset⟩
  · exact exists_mem_mono hg.links h
  · exact exists_mem_mono hg.swqs h
  · exact exists_mem_mono hg.tmgrPorts h
  · exact exists_mem_mono hg.taps h
  · exact exists_mem_mono hg.knis h
  · trivial
  · exact exists_mem_mono hg.cryptodevs h

/-- A sound pipeline stays sound while the devices grow. -/
theorem PipelineObject.Sound.mono (h : p.Sound c) (hg : c.DevicesGrow c') : p.Sound c' where
  portIn x hx := (h.portIn x hx).mono hg
  portInProfile x hx ap hap := hg.portInActionProfiles.subset (h.portInProfile x hx ap hap)
  portOut w hw := (h.portOut w hw).mono hg
  table := h.table
  tableProfile t ht ap hap := hg.tableActionProfiles.subset (h.tableProfile t ht ap hap)
  tableMax := h.tableMax
  connected := h.connected

end Growing

/-! ### Creating -/

section Creating

variable {lib : Library} {c : Configuration} {name : String}

/-- A new memory pool has a new name. -/
theorem mempoolCreate_some {params : MempoolParams} {x : Mempool}
    (h : mempoolCreate lib c name params = some x) :
    mempoolFind c name = none ∧ x.name = strlcpy name := by
  simp only [mempoolCreate, Option.bind_eq_bind, Option.bind_eq_some_iff, Option.guard_eq_some',
    Option.isNone_iff_eq_none, Option.some.injEq] at h
  obtain ⟨-, ⟨hfind, -⟩, m, -, rfl⟩ := h
  exact ⟨hfind, rfl⟩

/-- A new link has a new name and queues in both directions. -/
theorem linkCreate_some {params : LinkParams} {x : Link}
    (h : linkCreate lib c name params = some x) :
    (linkFind c name = none ∧ x.name = strlcpy name) ∧ 0 < x.nRxq ∧ 0 < x.nTxq := by
  simp only [linkCreate, Option.bind_eq_bind, Option.bind_eq_some_iff, Option.guard_eq_some',
    Option.isNone_iff_eq_none, Option.some.injEq] at h
  obtain ⟨-, ⟨hfind, hrx, -, htx, -⟩, portId, -, info, -, mempool, -, -, -, -, -, rfl⟩ := h
  exact ⟨⟨hfind, rfl⟩, Nat.pos_of_ne_zero hrx, Nat.pos_of_ne_zero htx⟩

/-- A new software queue has a new name. -/
theorem swqCreate_some {params : SwqParams} {x : Swq} (h : swqCreate lib c name params = some x) :
    swqFind c name = none ∧ x.name = strlcpy name := by
  simp only [swqCreate, Option.bind_eq_bind, Option.bind_eq_some_iff, Option.guard_eq_some',
    Option.isNone_iff_eq_none, Option.some.injEq] at h
  obtain ⟨-, ⟨hfind, -⟩, r, -, rfl⟩ := h
  exact ⟨hfind, rfl⟩

/-- A new traffic manager has a new name, subports and pipes. -/
theorem tmgrPortCreate_some {params : TmgrPortParams} {x : TmgrPort}
    (h : tmgrPortCreate lib c name params = some x) :
    (tmgrPortFind c name = none ∧ x.name = strlcpy name) ∧
      0 < x.nSubportsPerPort ∧ 0 < x.nPipesPerSubport := by
  simp only [tmgrPortCreate, Option.bind_eq_bind, Option.bind_eq_some_iff, Option.guard_eq_some',
    Option.isNone_iff_eq_none, Option.some.injEq] at h
  obtain ⟨-, ⟨hfind, hsubports, hpipes, -⟩, s, -, rfl⟩ := h
  exact ⟨⟨hfind, rfl⟩, Nat.pos_of_ne_zero hsubports, Nat.pos_of_ne_zero hpipes⟩

/-- A new tap has a new name. -/
theorem tapCreate_some {x : Tap} (h : tapCreate lib c name = some x) :
    tapFind c name = none ∧ x.name = strlcpy name := by
  simp only [tapCreate, Option.bind_eq_bind, Option.bind_eq_some_iff, Option.guard_eq_some',
    Option.isNone_iff_eq_none, Option.some.injEq] at h
  obtain ⟨-, hfind, fd, -, rfl⟩ := h
  exact ⟨hfind, rfl⟩

/-- A new kernel interface has a new name. -/
theorem kniCreate_some {params : KniParams} {x : Kni} (h : kniCreate lib c name params = some x) :
    kniFind c name = none ∧ x.name = strlcpy name := by
  simp only [kniCreate, Option.bind_eq_bind, Option.bind_eq_some_iff, Option.guard_eq_some',
    Option.isNone_iff_eq_none, Option.some.injEq] at h
  obtain ⟨-, ⟨hfind, -⟩, k, -, rfl⟩ := h
  exact ⟨hfind, rfl⟩

/-- A new crypto device has a new name and queues. -/
theorem cryptodevCreate_some {params : CryptodevParams} {x : Cryptodev}
    (h : cryptodevCreate lib c name params = some x) :
    (cryptodevFind c name = none ∧ x.name = strlcpy name) ∧ 0 < x.nQueues := by
  simp only [cryptodevCreate, Option.bind_eq_bind, Option.bind_eq_some_iff, Option.guard_eq_some',
    Option.isNone_iff_eq_none, Option.some.injEq] at h
  obtain ⟨-, ⟨hfind, hqueues, -⟩, devId, -, -, -, pools, -, rfl⟩ := h
  exact ⟨⟨hfind, rfl⟩, Nat.pos_of_ne_zero hqueues⟩

/-- A new port profile has a new name and a key size of the list. -/
theorem portInActionProfileCreate_some {params : PortInActionProfileParams}
    {x : PortInActionProfile} (h : portInActionProfileCreate lib c name params = some x) :
    (portInActionProfileFind c name = none ∧ x.name = strlcpy name) ∧
      ∀ lb ∈ x.params.lb, lb.keySize ∈ hashKeySizes := by
  simp only [portInActionProfileCreate, Option.bind_eq_bind, Option.bind_eq_some_iff,
    Option.guard_eq_some', Option.isNone_iff_eq_none, Option.some.injEq, Option.all_eq_true,
    decide_eq_true_eq] at h
  obtain ⟨-, ⟨hfind, hlb⟩, ap, -, rfl⟩ := h
  exact ⟨⟨hfind, rfl⟩, hlb⟩

/-- A new table profile has a new name and a key size of the list. -/
theorem tableActionProfileCreate_some {params : TableActionProfileParams}
    {x : TableActionProfile} (h : tableActionProfileCreate lib c name params = some x) :
    (tableActionProfileFind c name = none ∧ x.name = strlcpy name) ∧
      ∀ lb ∈ x.params.lb, lb.keySize ∈ hashKeySizes := by
  simp only [tableActionProfileCreate, Option.bind_eq_bind, Option.bind_eq_some_iff,
    Option.guard_eq_some', Option.isNone_iff_eq_none, Option.some.injEq, Option.all_eq_true,
    decide_eq_true_eq] at h
  obtain ⟨-, ⟨hfind, hlb⟩, ap, -, rfl⟩ := h
  exact ⟨⟨hfind, rfl⟩, hlb⟩

/-- A new pipeline has a new name, a period and nothing in it. -/
theorem pipelineCreate_eq {params : PipelineParams} {x : PipelineObject}
    (h : pipelineCreate lib c name params = some x) :
    pipelineFind c name = none ∧ params.timerPeriodMs ≠ 0 ∧
      ∃ p, x = ⟨strlcpy name, p, params.timerPeriodMs, params.cpuId, [], [], [], []⟩ := by
  simp only [pipelineCreate, Option.bind_eq_bind, Option.bind_eq_some_iff, Option.guard_eq_some',
    Option.isNone_iff_eq_none, Option.some.injEq] at h
  obtain ⟨-, ⟨hfind, htimer⟩, p, -, rfl⟩ := h
  exact ⟨hfind, htimer, p, rfl⟩

/-- A new pipeline has no ports and no tables. -/
theorem pipelineCreate_some {params : PipelineParams} {x : PipelineObject}
    (h : pipelineCreate lib c name params = some x) :
    (pipelineFind c name = none ∧ x.name = strlcpy name) ∧ x.Sound c := by
  obtain ⟨hfind, -, p, rfl⟩ := pipelineCreate_eq h
  exact ⟨⟨hfind, rfl⟩, by constructor <;> simp⟩

/-! ### Ports and tables -/

/-- What is given is found. -/
theorem ifGiven_some {κ α : Type} {find : κ → Option α} {k : Option κ} {r : Option α}
    (h : ifGiven find k = some r) : ∀ a ∈ r, ∃ k, find k = some a := by
  rcases k with - | k
  · obtain rfl := Option.some.inj h
    simp
  · obtain ⟨a, ha, rfl⟩ := Option.map_eq_some_iff.mp h
    intro b hb
    exact ⟨k, ha.trans hb⟩

/-- The queue of a crypto device is compared with the last one: there is one. -/
theorem readerOf_some (hc : c.Sound) {dev : PortInDev} {r : Reader} (h : readerOf c dev = some r) :
    c.Reads r := by
  rcases dev with ⟨devName, queueId⟩ | devName | devName | ⟨devName, mempoolName, mtu⟩ | devName |
    ⟨mempoolName, fileName, n⟩ | ⟨devName, queueId⟩
  all_goals
    simp only [readerOf, Option.bind_eq_bind, Option.bind_eq_some_iff, Option.guard_eq_some',
      Option.some.injEq] at h
  · obtain ⟨link, hfind, -, hqueue, rfl⟩ := h
    exact ⟨link, KeyedList.mem_of_find hfind, rfl, hqueue⟩
  · obtain ⟨swq, hfind, rfl⟩ := h
    exact ⟨swq, KeyedList.mem_of_find hfind, rfl⟩
  · obtain ⟨tmgrPort, hfind, rfl⟩ := h
    exact ⟨tmgrPort, KeyedList.mem_of_find hfind, rfl⟩
  · obtain ⟨tap, hfind, mempool, hpool, rfl⟩ := h
    exact ⟨⟨tap, KeyedList.mem_of_find hfind, rfl⟩, mempool, KeyedList.mem_of_find hpool, rfl⟩
  · obtain ⟨kni, hfind, rfl⟩ := h
    exact ⟨kni, KeyedList.mem_of_find hfind, rfl⟩
  · obtain ⟨mempool, hpool, rfl⟩ := h
    exact ⟨mempool, KeyedList.mem_of_find hpool, rfl⟩
  · obtain ⟨cryptodev, hfind, -, hqueue, rfl⟩ := h
    have hmem : cryptodev ∈ c.cryptodevs := KeyedList.mem_of_find hfind
    have hpos : 0 < cryptodev.nQueues := hc.cryptodevs cryptodev hmem
    exact ⟨cryptodev, hmem, rfl, by omega⟩

/-- A writer that is made is one of a device. -/
theorem writerOf_some {dev : PortOutDev} {w : Writer} (h : writerOf c dev = some w) :
    c.Writes w := by
  rcases dev with ⟨devName, queueId⟩ | devName | devName | devName | devName | file |
    ⟨devName, queueId, offset⟩
  all_goals
    simp only [writerOf, Option.bind_eq_bind, Option.bind_eq_some_iff, Option.guard_eq_some',
      Option.some.injEq] at h
  · obtain ⟨link, hfind, -, hqueue, rfl⟩ := h
    exact ⟨link, KeyedList.mem_of_find hfind, rfl, hqueue⟩
  · obtain ⟨swq, hfind, rfl⟩ := h
    exact ⟨swq, KeyedList.mem_of_find hfind, rfl⟩
  · obtain ⟨tmgrPort, hfind, rfl⟩ := h
    exact ⟨tmgrPort, KeyedList.mem_of_find hfind, rfl⟩
  · obtain ⟨tap, hfind, rfl⟩ := h
    exact ⟨tap, KeyedList.mem_of_find hfind, rfl⟩
  · obtain ⟨kni, hfind, rfl⟩ := h
    exact ⟨kni, KeyedList.mem_of_find hfind, rfl⟩
  · subst h
    trivial
  · obtain ⟨cryptodev, hfind, -, hqueue, rfl⟩ := h
    exact ⟨cryptodev, KeyedList.mem_of_find hfind, rfl, hqueue⟩

/-- An operation on a pipeline: it grows, and refers to what is there. -/
def Extended (c : Configuration) (p' : PipelineObject) : Prop :=
  p'.Sound c ∧ ∃ p, pipelineFind c p'.name = some p ∧ p.Grows p'

/-- A pipeline that is found is in the list, under its name. -/
theorem pipelineFind_some {p : PipelineObject} (h : pipelineFind c name = some p) :
    p ∈ c.pipelines ∧ pipelineFind c p.name = some p := by
  refine ⟨KeyedList.mem_of_find h, ?_⟩
  rw [show p.name = name from KeyedList.key_of_find h]
  exact h

/-- A new input port goes behind the old ones. -/
theorem pipelinePortInCreate_eq {params : PortInParams} {p' : PipelineObject}
    (h : pipelinePortInCreate lib c name params = some p') :
    ∃ p ap reader a, pipelineFind c name = some p ∧
      ifGiven (portInActionProfileFind c) params.actionProfileName = some ap ∧
      readerOf c params.dev = some reader ∧
      p' = { p with portIn := p.portIn ++ [⟨reader, params.burstSize, ap, a⟩] } := by
  simp only [pipelinePortInCreate, Option.bind_eq_bind, Option.bind_eq_some_iff,
    Option.guard_eq_some', Option.some.injEq] at h
  obtain ⟨-, -, p, hfind, ap, hap, reader, hreader, a, -, -, -, rfl⟩ := h
  exact ⟨p, ap, reader, a, hfind, hap, hreader, rfl⟩

/-- A new input port extends a sound pipeline to a sound one. -/
theorem pipelinePortInCreate_some (hc : c.Sound) {params : PortInParams} {p' : PipelineObject}
    (h : pipelinePortInCreate lib c name params = some p') : Extended c p' := by
  obtain ⟨p, ap, reader, a, hfind, hap, hreader, rfl⟩ := pipelinePortInCreate_eq h
  obtain ⟨hmem, hself⟩ := pipelineFind_some hfind
  have hp : p.Sound c := hc.pipelines p hmem
  have hreads : c.Reads reader := readerOf_some hc hreader
  refine ⟨{ hp with portIn := ?_, portInProfile := ?_, connected := ?_ }, p, hself,
    { PipelineObject.Grows.refl p with portIn := List.prefix_append _ _ }⟩
  · intro x hx
    rcases List.mem_append.mp hx with hx | hx
    · exact hp.portIn x hx
    · obtain rfl := List.mem_singleton.mp hx
      exact hreads
  · intro x hx n hn
    rcases List.mem_append.mp hx with hx | hx
    · exact hp.portInProfile x hx n hn
    · obtain rfl := List.mem_singleton.mp hx
      obtain ⟨profileName, hprofile⟩ := ifGiven_some hap n hn
      exact KeyedList.mem_of_find hprofile
  · intro x hx
    obtain ⟨hport, htable⟩ := hp.connected x hx
    exact ⟨by rw [List.length_append]; omega, htable⟩

/-- A new output port goes behind the old ones. -/
theorem pipelinePortOutCreate_eq {params : PortOutParams} {p' : PipelineObject}
    (h : pipelinePortOutCreate lib c name params = some p') :
    ∃ p writer, pipelineFind c name = some p ∧ writerOf c params.dev = some writer ∧
      p' = { p with portOut := p.portOut ++ [writer] } := by
  simp only [pipelinePortOutCreate, Option.bind_eq_bind, Option.bind_eq_some_iff,
    Option.guard_eq_some', Option.some.injEq] at h
  obtain ⟨-, -, p, hfind, writer, hwriter, -, -, rfl⟩ := h
  exact ⟨p, writer, hfind, hwriter, rfl⟩

/-- A new output port extends a sound pipeline to a sound one. -/
theorem pipelinePortOutCreate_some (hc : c.Sound) {params : PortOutParams} {p' : PipelineObject}
    (h : pipelinePortOutCreate lib c name params = some p') : Extended c p' := by
  obtain ⟨p, writer, hfind, hwriter, rfl⟩ := pipelinePortOutCreate_eq h
  obtain ⟨hmem, hself⟩ := pipelineFind_some hfind
  have hp : p.Sound c := hc.pipelines p hmem
  refine ⟨{ hp with portOut := ?_ }, p, hself,
    { PipelineObject.Grows.refl p with portOut := List.prefix_append _ _ }⟩
  intro w hw
  rcases List.mem_append.mp hw with hw | hw
  · exact hp.portOut w hw
  · obtain rfl := List.mem_singleton.mp hw
    exact writerOf_some hwriter

/-- A new table goes behind the old ones, of which there are fewer than the maximum. -/
theorem pipelineTableCreate_eq {params : PipelineTableParams} {p' : PipelineObject}
    (h : pipelineTableCreate lib c name params = some p') :
    ∃ p ap a, pipelineFind c name = some p ∧ p.table.length < Threads.rtePipelineTableMax ∧
      ifGiven (tableActionProfileFind c) params.actionProfileName = some ap ∧
      tableMatchOk params.tableMatch ∧
      p' = { p with table := p.table ++ [⟨params.tableMatch, ap, a⟩] } := by
  simp only [pipelineTableCreate, Option.bind_eq_bind, Option.bind_eq_some_iff,
    Option.guard_eq_some', Option.some.injEq] at h
  obtain ⟨p, hfind, -, hmax, ap, hap, -, hok, a, -, -, -, rfl⟩ := h
  exact ⟨p, ap, a, hfind, hmax, hap, hok, rfl⟩

/-- A new table extends a sound pipeline to a sound one. -/
theorem pipelineTableCreate_some (hc : c.Sound) {params : PipelineTableParams}
    {p' : PipelineObject} (h : pipelineTableCreate lib c name params = some p') :
    Extended c p' := by
  obtain ⟨p, ap, a, hfind, hmax, hap, hok, rfl⟩ := pipelineTableCreate_eq h
  obtain ⟨hmem, hself⟩ := pipelineFind_some hfind
  have hp : p.Sound c := hc.pipelines p hmem
  refine ⟨{ hp with table := ?_, tableProfile := ?_, tableMax := ?_, connected := ?_ }, p, hself,
    { PipelineObject.Grows.refl p with table := List.prefix_append _ _ }⟩
  · intro t ht
    rcases List.mem_append.mp ht with ht | ht
    · exact hp.table t ht
    · obtain rfl := List.mem_singleton.mp ht
      exact hok
  · intro t ht n hn
    rcases List.mem_append.mp ht with ht | ht
    · exact hp.tableProfile t ht n hn
    · obtain rfl := List.mem_singleton.mp ht
      obtain ⟨profileName, hprofile⟩ := ifGiven_some hap n hn
      exact KeyedList.mem_of_find hprofile
  · rw [List.length_append]
    exact hmax
  · intro x hx
    obtain ⟨hport, htable⟩ := hp.connected x hx
    exact ⟨hport, by rw [List.length_append]; omega⟩

/-- A port is connected to a table when both are there. -/
theorem pipelinePortInConnectToTable_eq {portId tableId : ℕ} {p' : PipelineObject}
    (h : pipelinePortInConnectToTable lib c name portId tableId = some p') :
    ∃ p, pipelineFind c name = some p ∧
      (portId < p.portIn.length ∧ tableId < p.table.length) ∧
      p' = { p with connected := p.connected ++ [(portId, tableId)] } := by
  simp only [pipelinePortInConnectToTable, Option.bind_eq_bind, Option.bind_eq_some_iff,
    Option.guard_eq_some', Option.some.injEq] at h
  obtain ⟨p, hfind, -, hids, -, -, rfl⟩ := h
  exact ⟨p, hfind, hids, rfl⟩

/-- A connection extends a sound pipeline to a sound one. -/
theorem pipelinePortInConnectToTable_some (hc : c.Sound) {portId tableId : ℕ}
    {p' : PipelineObject} (h : pipelinePortInConnectToTable lib c name portId tableId = some p') :
    Extended c p' := by
  obtain ⟨p, hfind, hids, rfl⟩ := pipelinePortInConnectToTable_eq h
  obtain ⟨hmem, hself⟩ := pipelineFind_some hfind
  have hp : p.Sound c := hc.pipelines p hmem
  refine ⟨{ hp with connected := ?_ }, p, hself,
    { PipelineObject.Grows.refl p with connected := List.prefix_append _ _ }⟩
  intro x hx
  rcases List.mem_append.mp hx with hx | hx
  · exact hp.connected x hx
  · obtain rfl := List.mem_singleton.mp hx
    exact hids

end Creating

/-! ### One command -/

section Exec

variable {lib : Library} {c : Configuration}

/-- An extended pipeline lets the configuration grow. -/
theorem setPipeline_grows {p' : PipelineObject} (h : Extended c p') :
    c.Grows (c.setPipeline p') := by
  obtain ⟨-, p, hp, hgrows⟩ := h
  refine ⟨c.devicesGrow_pipelines _, fun name q hq => ?_⟩
  by_cases hname : name = p'.name
  · subst hname
    obtain rfl : p = q := Option.some.inj (hp.symm.trans hq)
    exact ⟨p', KeyedList.find_put_self p' c.pipelines, hgrows⟩
  · exact ⟨q, (KeyedList.find_put_of_ne hname).trans hq, .refl q⟩

/-- The same where the command may fail. -/
theorem elim_setPipeline_grows {o : Option PipelineObject} (h : ∀ p' ∈ o, Extended c p') :
    c.Grows (o.elim c c.setPipeline) := by
  rcases o with - | p'
  · exact .refl c
  · exact setPipeline_grows (h p' rfl)

/-- A command adds, and takes nothing away. -/
theorem exec_grows (hc : c.Sound) (cmd : ConfigCommand) : c.Grows (exec lib c cmd) := by
  have hkeep (name : String) (p : PipelineObject) (hp : pipelineFind c name = some p) :
      ∃ p', pipelineFind c name = some p' ∧ p.Grows p' := ⟨p, hp, .refl p⟩
  have hrefl := Configuration.DevicesGrow.refl c
  rcases cmd with ⟨name, params⟩ | ⟨name, params⟩ | ⟨name, params⟩ | params | params |
    ⟨name, params⟩ | - | - | name | ⟨name, params⟩ | ⟨name, params⟩ | ⟨name, params⟩ |
    ⟨name, params⟩ | ⟨name, params⟩ | ⟨name, params, enabled⟩ | ⟨name, params⟩ |
    ⟨name, params⟩ | ⟨name, portId, tableId⟩
  · exact ⟨{ hrefl with mempools := List.prefix_append _ _ }, hkeep⟩
  · exact ⟨{ hrefl with links := List.prefix_append _ _ }, hkeep⟩
  · exact ⟨{ hrefl with swqs := List.prefix_append _ _ }, hkeep⟩
  · exact ⟨{ hrefl with subportProfiles := List.prefix_append _ _ }, hkeep⟩
  · exact ⟨{ hrefl with pipeProfiles := List.prefix_append _ _ }, hkeep⟩
  · exact ⟨{ hrefl with tmgrPorts := List.prefix_append _ _ }, hkeep⟩
  · exact .refl c
  · exact .refl c
  · exact ⟨{ hrefl with taps := List.prefix_append _ _ }, hkeep⟩
  · exact ⟨{ hrefl with knis := List.prefix_append _ _ }, hkeep⟩
  · exact ⟨{ hrefl with cryptodevs := List.prefix_append _ _ }, hkeep⟩
  · exact ⟨{ hrefl with portInActionProfiles := List.prefix_append _ _ }, hkeep⟩
  · exact ⟨{ hrefl with tableActionProfiles := List.prefix_append _ _ }, hkeep⟩
  · exact ⟨c.devicesGrow_pipelines _, fun n p hp => ⟨p, KeyedList.find_append hp _, .refl p⟩⟩
  · exact elim_setPipeline_grows fun _ h => pipelinePortInCreate_some hc h
  · exact elim_setPipeline_grows fun _ h => pipelinePortOutCreate_some hc h
  · exact elim_setPipeline_grows fun _ h => pipelineTableCreate_some hc h
  · exact elim_setPipeline_grows fun _ h => pipelinePortInConnectToTable_some hc h

/-- A property of a list and of what may follow it. -/
theorem forall_append_toList {α : Type} {l : List α} {o : Option α} {P : α → Prop}
    (hl : ∀ x ∈ l, P x) (ho : ∀ x ∈ o, P x) : ∀ x ∈ l ++ o.toList, P x := by
  intro x hx
  rcases List.mem_append.mp hx with hx | hx
  · exact hl x hx
  · exact ho x (Option.mem_toList.mp hx)

/-- An extended pipeline keeps the configuration sound, where the command may fail. -/
theorem elim_setPipeline_sound (hc : c.Sound) {o : Option PipelineObject}
    (h : ∀ p' ∈ o, Extended c p') : (o.elim c c.setPipeline).Sound := by
  rcases o with - | p'
  · exact hc
  · refine { hc with pipelines := fun q hq => ?_ }
    have hperm : (c.setPipeline p').pipelines.Perm
        (p' :: KeyedList.erase PipelineObject.name c.pipelines p'.name) :=
      KeyedList.put_perm p' c.pipelines
    rcases List.mem_cons.mp (hperm.mem_iff.mp hq) with rfl | hold
    · exact (h q rfl).1.mono (c.devicesGrow_pipelines _)
    · exact (hc.pipelines q (List.mem_of_mem_eraseP hold)).mono (c.devicesGrow_pipelines _)

/-- A command keeps all references good. -/
theorem exec_sound (hc : c.Sound) (cmd : ConfigCommand) : (exec lib c cmd).Sound := by
  have hold (p : PipelineObject) (hp : p ∈ c.pipelines) : p.Sound (exec lib c cmd) :=
    (hc.pipelines p hp).mono (exec_grows hc cmd).devices
  rcases cmd with ⟨name, params⟩ | ⟨name, params⟩ | ⟨name, params⟩ | params | params |
    ⟨name, params⟩ | - | - | name | ⟨name, params⟩ | ⟨name, params⟩ | ⟨name, params⟩ |
    ⟨name, params⟩ | ⟨name, params⟩ | ⟨name, params, enabled⟩ | ⟨name, params⟩ |
    ⟨name, params⟩ | ⟨name, portId, tableId⟩
  · exact { hc with pipelines := hold }
  · exact { hc with
      links := forall_append_toList hc.links fun _ h => (linkCreate_some h).2
      pipelines := hold }
  · exact { hc with pipelines := hold }
  · exact { hc with pipelines := hold }
  · exact { hc with pipelines := hold }
  · exact { hc with
      tmgrPorts := forall_append_toList hc.tmgrPorts fun _ h => (tmgrPortCreate_some h).2
      pipelines := hold }
  · exact hc
  · exact hc
  · exact { hc with pipelines := hold }
  · exact { hc with pipelines := hold }
  · exact { hc with
      cryptodevs := forall_append_toList hc.cryptodevs fun _ h => (cryptodevCreate_some h).2
      pipelines := hold }
  · exact { hc with
      portInActionProfiles := forall_append_toList hc.portInActionProfiles
        fun _ h => (portInActionProfileCreate_some h).2
      pipelines := hold }
  · exact { hc with
      tableActionProfiles := forall_append_toList hc.tableActionProfiles
        fun _ h => (tableActionProfileCreate_some h).2
      pipelines := hold }
  · exact { hc with
      pipelines := forall_append_toList hold
        fun _ h => (pipelineCreate_some h).2.mono (c.devicesGrow_pipelines _) }
  · exact elim_setPipeline_sound hc fun _ h => pipelinePortInCreate_some hc h
  · exact elim_setPipeline_sound hc fun _ h => pipelinePortOutCreate_some hc h
  · exact elim_setPipeline_sound hc fun _ h => pipelineTableCreate_some hc h
  · exact elim_setPipeline_sound hc fun _ h => pipelinePortInConnectToTable_some hc h

/-- A name that fits is kept as it is. -/
theorem strlcpy_eq {name : String} (h : name.length < nameSize) : strlcpy name = name := by
  have hlen : name.toList.length ≤ nameSize - 1 := by
    rw [String.length_toList]
    exact Nat.le_sub_one_of_lt h
  rw [strlcpy, List.take_of_length_le hlen, String.ofList_toList]

/-- A pipeline put back keeps the names apart. -/
theorem elim_setPipeline_named (hc : c.Named) (o : Option PipelineObject) :
    (o.elim c c.setPipeline).Named := by
  rcases o with - | p'
  · exact hc
  · exact { hc with pipelines := hc.pipelines.put p' }

/-- A new name that fits is no name of an object of the kind. -/
theorem exec_named (hc : c.Named) {cmd : ConfigCommand}
    (hcmd : ∀ name ∈ cmd.newName, name.length < nameSize) : (exec lib c cmd).Named := by
  have hfree {α : Type} {key : α → String} {l : List α} {name : String} {x : α}
      (hname : name ∈ cmd.newName)
      (h : KeyedList.find key l name = none ∧ key x = strlcpy name) :
      KeyedList.find key l (key x) = none := by
    rw [h.2, strlcpy_eq (hcmd name hname)]
    exact h.1
  rcases cmd with ⟨name, params⟩ | ⟨name, params⟩ | ⟨name, params⟩ | params | params |
    ⟨name, params⟩ | - | - | name | ⟨name, params⟩ | ⟨name, params⟩ | ⟨name, params⟩ |
    ⟨name, params⟩ | ⟨name, params⟩ | ⟨name, params, enabled⟩ | ⟨name, params⟩ |
    ⟨name, params⟩ | ⟨name, portId, tableId⟩
  · exact { hc with
      mempools := hc.mempools.append_toList fun _ h => hfree rfl (mempoolCreate_some h) }
  · exact { hc with
      links := hc.links.append_toList fun _ h => hfree rfl (linkCreate_some h).1 }
  · exact { hc with swqs := hc.swqs.append_toList fun _ h => hfree rfl (swqCreate_some h) }
  · exact { hc with }
  · exact { hc with }
  · exact { hc with
      tmgrPorts := hc.tmgrPorts.append_toList fun _ h => hfree rfl (tmgrPortCreate_some h).1 }
  · exact hc
  · exact hc
  · exact { hc with taps := hc.taps.append_toList fun _ h => hfree rfl (tapCreate_some h) }
  · exact { hc with knis := hc.knis.append_toList fun _ h => hfree rfl (kniCreate_some h) }
  · exact { hc with
      cryptodevs := hc.cryptodevs.append_toList fun _ h => hfree rfl (cryptodevCreate_some h).1 }
  · exact { hc with
      portInActionProfiles := hc.portInActionProfiles.append_toList
        fun _ h => hfree rfl (portInActionProfileCreate_some h).1 }
  · exact { hc with
      tableActionProfiles := hc.tableActionProfiles.append_toList
        fun _ h => hfree rfl (tableActionProfileCreate_some h).1 }
  · exact { hc with
      pipelines := hc.pipelines.append_toList fun _ h => hfree rfl (pipelineCreate_some h).1 }
  · exact elim_setPipeline_named hc _
  · exact elim_setPipeline_named hc _
  · exact elim_setPipeline_named hc _
  · exact elim_setPipeline_named hc _

end Exec

/-! ### Runs -/

/-- The objects after a run of commands, each with the answers that the library gives to it. -/
def configure (steps : List (Library × ConfigCommand)) : Configuration :=
  steps.foldl (fun c step => exec step.1 c step.2) .init

/-- A run of commands ends with its last one. -/
theorem configure_concat (steps : List (Library × ConfigCommand))
    (step : Library × ConfigCommand) :
    configure (steps ++ [step]) = exec step.1 (configure steps) step.2 := by
  rw [configure, List.foldl_append]
  rfl

/-- **Every run of commands leaves a sound configuration**. -/
theorem sound_configure (steps : List (Library × ConfigCommand)) : (configure steps).Sound := by
  induction steps using List.reverseRecOn with
  | nil => constructor <;> simp [configure, Configuration.init]
  | append_singleton steps step ih =>
    rw [configure_concat]
    exact exec_sound ih step.2

/-- **A run of commands only adds**. -/
theorem configure_grows (steps more : List (Library × ConfigCommand)) :
    (configure steps).Grows (configure (steps ++ more)) := by
  induction more using List.reverseRecOn with
  | nil =>
    rw [List.append_nil]
    exact .refl _
  | append_singleton more step ih =>
    rw [← List.append_assoc, configure_concat]
    exact ih.trans (exec_grows (sound_configure _) step.2)

/-- Runs with short names keep the names apart. -/
theorem named_configure {steps : List (Library × ConfigCommand)}
    (h : ∀ step ∈ steps, ∀ name ∈ step.2.newName, name.length < nameSize) :
    (configure steps).Named := by
  induction steps using List.reverseRecOn with
  | nil => constructor <;> exact List.nodup_nil
  | append_singleton steps step ih =>
    rw [configure_concat]
    refine exec_named (ih fun x hx => h x (List.mem_append_left _ hx)) ?_
    exact h step (List.mem_append_right _ (List.mem_singleton_self step))

/-- **What a run of configuration commands leaves.** Whatever the library answers: every port reads
or writes a device that is there, through a queue that the device has; its profile and that of
a table is there; a connection is between a port and a table that are there; what was there stays.
Where no name has to be cut, an object is the only one of its kind with its name. -/
theorem configuration_run (steps : List (Library × ConfigCommand)) :
    (configure steps).Sound ∧
      (∀ more, (configure steps).Grows (configure (steps ++ more))) ∧
      ((∀ step ∈ steps, ∀ name ∈ step.2.newName, name.length < nameSize) →
        (configure steps).Named) :=
  ⟨sound_configure steps, configure_grows steps, named_configure⟩

/-- A library that does all that it is asked. -/
def unitLibrary : Library where
  bufferSizeMin := 256
  maxNumaNodes := 1
  burstSizeMax := 64
  pktmbufPoolCreate _ _ := some 0
  ethPort _ portId := some portId
  ethInfo _ := some (16, 128)
  ethStart _ _ _ := true
  ringCreate _ _ := some 0
  schedCreate _ := some 0
  tapOpen _ := some 0
  kniAlloc _ _ := some 0
  cryptodevId _ devId := some devId
  cryptodevMaxQueues _ := 1
  cryptodevStart _ _ := some (0, 0)
  portInActionProfileCreate _ := some 0
  tableActionProfileCreate _ := some 0
  pipelineCreate _ _ := some 0
  portInActionCreate _ _ := some 0
  portInCreate _ _ _ := true
  portOutCreate _ _ := true
  tableActionCreate _ _ := some 0
  tableCreate _ _ _ := true
  connect _ _ _ := true

/-- A link, and a pipeline that reads from its first queue. -/
def linkSteps : List (Library × ConfigCommand) :=
  [(unitLibrary, .mempool "M" ⟨2304, 32768, 256, 0⟩),
    (unitLibrary, .link "L" ⟨none, 3, 2, 128, "M", none, 1, 512, true⟩),
    (unitLibrary, .pipeline "P" ⟨10, 0, 0⟩),
    (unitLibrary, .portIn "P" ⟨.rxq "L" 0, 32, none⟩ true)]

/-- A link and a pipeline that reads it. -/
theorem configuration_run_link :
    (configure linkSteps).Named ∧
      (configure linkSteps).pipelines.map (fun p => p.portIn.map PortIn.reader) =
        [[.ethdev 3 0]] :=
  ⟨(configuration_run linkSteps).2.2 (by decide), by decide⟩

end Rids.Cli
