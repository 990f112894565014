import DenBrowser.Lib.Run
import DenBrowser.Lib.AgedQueue
import DenBrowser.Lib.Base64
import DenBrowser.Text
import DenBrowser.Proxy.Reason
import DenBrowser.Proxy.Window
import DenBrowser.Proxy.NonceCache
import DenBrowser.Proxy.Attest
import DenBrowser.Proxy.Replay
import DenBrowser.Proxy.Platform
import DenBrowser.Proxy.Mtls
import DenBrowser.Proxy.Passthrough
import DenBrowser.Proxy.Machine
import DenBrowser.Proxy.DnsRun
import DenBrowser.Proxy.Audit
import DenBrowser.Proxy.Request
import DenBrowser.Proxy.Gate
import DenBrowser.Proxy.Forwarding
import DenBrowser.Proxy.GateAudit
import DenBrowser.Browser.Clipboard
import DenBrowser.Browser.AttestHeaders
import DenBrowser.RoundTrip
import DenBrowser.Browser.LaunchPolicy
import DenBrowser.Browser.Launcher
import DenBrowser.Browser.RemoteMessage
import DenBrowser.Browser.SiteFilter
import DenBrowser.Browser.ProxyTable
import DenBrowser.Lib.KeyedTree
import DenBrowser.Proxy.Config
import DenBrowser.Lib.FileTree
import DenBrowser.Lib.Script
import DenBrowser.Patches.PatchFile
import DenBrowser.Patches.ApplyPatches
import DenBrowser.Lib.Backtrack
import DenBrowser.Lockdown.LockPref
import DenBrowser.Patches.Workflow
import DenBrowser.Lockdown.AutoConfig
import DenBrowser.Lockdown.CfgFile
import DenBrowser.Lockdown.CompilerReads
import DenBrowser.Lockdown.ScriptReads
import DenBrowser.Lockdown.Agreement
import DenBrowser.Proxy.PathPrivacy
import DenBrowser.Proxy.CacheSize
import DenBrowser.TokenFormat
import DenBrowser.Proxy.Authority
import DenBrowser.Proxy.RecordSize
import DenBrowser.Proxy.DnsMemory
import DenBrowser.Lib.Quota
import DenBrowser.Proxy.RateLimit
import DenBrowser.Proxy.RateTarget
import DenBrowser.Lib.Pki
import DenBrowser.Proxy.CaSeparation
import DenBrowser.Lib.WriteBuffer
import DenBrowser.Browser.EnvironmentBlock
import DenBrowser.Proxy.EnvSpec
import DenBrowser.Lib.Rfc4514
import DenBrowser.Proxy.DistinguishedName
import DenBrowser.Browser.MachineCertificate
import DenBrowser.Lib.Best
import DenBrowser.Browser.ClipboardFreshness
import DenBrowser.Browser.NotificationBar
import DenBrowser.Browser.NotificationSituation
import DenBrowser.Browser.NotificationRuns
import DenBrowser.Lib.Lines
import DenBrowser.Lib.Utf8Replace
import DenBrowser.Patches.CommentScan
import DenBrowser.Patches.PatchStats
import DenBrowser.Patches.ZeroContext
import DenBrowser.Patches.LineCounts
import DenBrowser.Browser.GeneratedBlock
import DenBrowser.Browser.SiteConfig
import DenBrowser.Lib.CTables
import DenBrowser.Browser.ProxyTableText
import DenBrowser.Browser.ProxyTableRows
import DenBrowser.Browser.ProxyTableStep
import DenBrowser.Lib.Sentinel
import DenBrowser.Lib.PyTemplate
import DenBrowser.Lib.LinkTree
import DenBrowser.Payloads.BlankTestPayloads
import DenBrowser.Payloads.Blanking
import DenBrowser.Lib.Words
import DenBrowser.Lib.PosixPath
import DenBrowser.Browser.SiteLists
import DenBrowser.Browser.SiteListArrays
import DenBrowser.Browser.SiteListFiles
import DenBrowser.Browser.SiteListFilter
import DenBrowser.Browser.SiteListStep
import DenBrowser.Browser.SiteListOrder
import DenBrowser.Lib.HtmlFragment
import DenBrowser.Browser.NewTabTiles
import DenBrowser.Browser.NewTabText
import DenBrowser.Browser.NewTabStep
import DenBrowser.Lib.Json
import DenBrowser.Lib.JsonSchema
import DenBrowser.Lib.Calendar
import DenBrowser.Lib.FixedWidth
import DenBrowser.Proxy.Timestamp
import DenBrowser.Proxy.LogLines
import DenBrowser.Proxy.AuditSchema
import DenBrowser.Proxy.GateParts
import DenBrowser.Proxy.Serving
import DenBrowser.Proxy.ServingSteps
import DenBrowser.Proxy.ServingRuns
import DenBrowser.Proxy.GateParts
import DenBrowser.Proxy.Serving
import DenBrowser.Proxy.ServingSteps
import DenBrowser.Proxy.ServingRuns
import DenBrowser.Proxy.ServingProgress
import DenBrowser.Proxy.ServingProgress
import DenBrowser.Delivery
import DenBrowser.Delivery
