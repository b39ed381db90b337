import TrustedCourier.AcmeAccount
import TrustedCourier.AcmeChallenges
import TrustedCourier.AcmeRecovery
import TrustedCourier.AuditConcurrent
import TrustedCourier.AuditCount
import TrustedCourier.AuditReadiness
import TrustedCourier.CacheFreshness
import TrustedCourier.DeliveryAudit
import TrustedCourier.DeliveryComplete
import TrustedCourier.Denials
import TrustedCourier.DnsRecordLists
import TrustedCourier.DnsZoneCache
import TrustedCourier.HookCommands
import TrustedCourier.Lifetimes
import TrustedCourier.OpenBaoListing
import TrustedCourier.PluginCalls
import TrustedCourier.PluginSupervision
import TrustedCourier.Reload
import TrustedCourier.SigV4
import TrustedCourier.TcExecFilter
import TrustedCourier.TcExecJobs
import TrustedCourier.TcExecRequest
import TrustedCourier.TokenLifecycle
import TrustedCourier.TokenPlaces
