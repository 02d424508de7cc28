import McuUpdater.Agent.AddMcu
import McuUpdater.Agent.Adoption
import McuUpdater.Agent.BusWatcher
import McuUpdater.Agent.Connection
import McuUpdater.Agent.Framing
import McuUpdater.Agent.Identity
import McuUpdater.Agent.Kconfig
import McuUpdater.Agent.Ledger
import McuUpdater.Agent.LogBatcher
import McuUpdater.Agent.Ownership
import McuUpdater.Agent.Provisioning
import McuUpdater.Agent.Reader
import McuUpdater.Agent.Reload
import McuUpdater.Agent.Rpc
import McuUpdater.Agent.SessionStore
import McuUpdater.Agent.SettingsApi
import McuUpdater.Agent.StateEmitter
import McuUpdater.Agent.Tracking
import McuUpdater.Agent.UpdateAll
import McuUpdater.Build.Patches
import McuUpdater.Build.Provenance
import McuUpdater.Discovery.ByidScan
import McuUpdater.Discovery.DfuScan
import McuUpdater.Discovery.MountTable
import McuUpdater.Discovery.Roadrunner
import McuUpdater.Discovery.RoadrunnerUsb
import McuUpdater.Discovery.Sockets
import McuUpdater.Flashers.Batch
import McuUpdater.Flashers.Bootsel
import McuUpdater.Flashers.DfuUtil
import McuUpdater.Flashers.FirstImage
import McuUpdater.Flashers.Katapult
import McuUpdater.Flashers.KatapultCan
import McuUpdater.Flashers.Lookup
import McuUpdater.Flashers.PlatformIo
import McuUpdater.Flashers.Scan
import McuUpdater.Flashers.Select
import McuUpdater.Helpers.Klipper
import McuUpdater.Helpers.Roadrunner
import McuUpdater.Jobs.Cancel
import McuUpdater.Jobs.Lock
import McuUpdater.Jobs.Notices
import McuUpdater.Jobs.Polling
import McuUpdater.Jobs.Runner
import McuUpdater.Jobs.Slot
import McuUpdater.Jobs.Submit
import McuUpdater.Kconfig.Handles
import McuUpdater.Kconfig.Rejected
import McuUpdater.Kconfig.Save
import McuUpdater.Lib.FirstOf
import McuUpdater.Lib.PyValue
import McuUpdater.Lib.Sectors
import McuUpdater.Lib.Transition
import McuUpdater.Profiles.Deriving
import McuUpdater.Profiles.Lineage
import McuUpdater.Profiles.Seeding
import McuUpdater.Registry.CfgStore
import McuUpdater.Registry.Comments
import McuUpdater.Registry.Removal
import McuUpdater.Registry.Reopened
import McuUpdater.Registry.Seed
import McuUpdater.Registry.Snapshot
import McuUpdater.Service.Exits
import McuUpdater.Service.Processes
import McuUpdater.Service.Recovery
import McuUpdater.Uf2.Digest
import McuUpdater.Uf2.Erase
import McuUpdater.Uf2.Rom
import McuUpdater.Ui.LogComplete
import McuUpdater.Ui.Moonraker
import McuUpdater.Ui.Store
import McuUpdater.Verdict
