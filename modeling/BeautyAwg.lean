import BeautyAwg.Awg.Correctness.NftMeaning
import BeautyAwg.Awg.Correctness.HubFile
import BeautyAwg.Store.Correctness.Addresses
import BeautyAwg.Store.Correctness.NodeExit
import BeautyAwg.Store.Correctness.LeastPrivilege
import BeautyAwg.Store.Correctness.Grants
import BeautyAwg.Store.Correctness.Links
import BeautyAwg.Store.Correctness.Enrolment
import BeautyAwg.Store.Correctness.Cryptokey
import BeautyAwg.Store.Correctness.AccessControl
import BeautyAwg.Store.Correctness.EndToEnd
import BeautyAwg.Api.Correctness.HubConfig
import BeautyAwg.Api.Correctness.Patch
import BeautyAwg.Service.Correctness.Converge
import BeautyAwg.Service.Correctness.FailClosed
import BeautyAwg.NodeAgent.Correctness.Teardown
import BeautyAwg.NodeAgent.Correctness.Firewall
import BeautyAwg.NodeAgent.Correctness.Backup
import BeautyAwg.Web.Correctness.JoinGroup
import BeautyAwg.Web.Correctness.GroupEdits
import BeautyAwg.Web.Correctness.MapLines
import BeautyAwg.NodeAgent.Correctness.Connect
import BeautyAwg.Store.Correctness.Tokens
import BeautyAwg.Store.Correctness.HubExit
import BeautyAwg.Store.Correctness.LinkOverlap
import BeautyAwg.Store.Correctness.PeerKeys
import BeautyAwg.Store.Correctness.Snapshots
import BeautyAwg.Api.Correctness.NodeSecrets
import BeautyAwg.Service.Correctness.Mutations
import BeautyAwg.Service.Correctness.Recovery
import BeautyAwg.Service.Correctness.RuleClash
import BeautyAwg.Service.Correctness.Inheritance
import BeautyAwg.Awg.Correctness.NftLoads
import BeautyAwg.Awg.Correctness.NftFile
import BeautyAwg.Api.Correctness.RulesetLoads
import BeautyAwg.Store.Correctness.Starvation
import BeautyAwg.Web.Correctness.SavedLayout
import BeautyAwg.Store.Correctness.PortLimits
import BeautyAwg.Store.Correctness.RuleLists
import BeautyAwg.Store.Correctness.RedirectTarget
import BeautyAwg.Store.Correctness.Allocation
import BeautyAwg.Api.Correctness.Session
import BeautyAwg.Resolver.Correctness.Domains
import BeautyAwg.Resolver.Correctness.Determined
import BeautyAwg.NodeAgent.Correctness.Inverse
import BeautyAwg.NodeAgent.Correctness.KeyText
import BeautyAwg.Service.Correctness.ExitPlan
import BeautyAwg.Awg.Correctness.ClientFile
import BeautyAwg.Awg.Correctness.ClientDNS
import BeautyAwg.Awg.Correctness.VPNLink
import BeautyAwg.Store.Correctness.Profile
import BeautyAwg.Store.Correctness.Migrate
import BeautyAwg.Release.Correctness.Newer
import BeautyAwg.Web.Correctness.SiteLinks
import BeautyAwg.Web.Correctness.LayoutBlob
import BeautyAwg.Api.Correctness.IfaceNames
import BeautyAwg.Lib.Tunnel
import BeautyAwg.Awg.Correctness.Ends
import BeautyAwg.Api.Correctness.HandedOut
import BeautyAwg.Api.Correctness.Access
import BeautyAwg.Release.Correctness.Cache
import BeautyAwg.Resolver.Correctness.Live
import BeautyAwg.Service.Correctness.Isolation
import BeautyAwg.NodeAgent.Correctness.Update
import BeautyAwg.NodeAgent.Correctness.Events
import BeautyAwg.NodeAgent.Correctness.OwnKey
import BeautyAwg.NodeAgent.Correctness.Undisturbed
