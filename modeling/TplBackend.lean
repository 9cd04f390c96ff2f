import TplBackend.Auth.CodeFlow
import TplBackend.Auth.Directory
import TplBackend.Auth.IdToken
import TplBackend.Auth.OwnLogin
import TplBackend.Auth.ReturnPath
import TplBackend.Auth.ScopeShapes
import TplBackend.Auth.Sessions
import TplBackend.Bootstrap.EnvMerge
import TplBackend.Config.DatabaseUrl
import TplBackend.Consumer.Isolation
import TplBackend.Consumer.Once
import TplBackend.Consumer.Quarantine
import TplBackend.Consumer.Released
import TplBackend.Consumer.Sequential
import TplBackend.CrossApp.Pages
import TplBackend.CrossApp.Targets
import TplBackend.Delivery.Acknowledgement
import TplBackend.Delivery.ClaimPaths
import TplBackend.Delivery.Completion
import TplBackend.Delivery.Conservation
import TplBackend.Delivery.Idempotence
import TplBackend.Delivery.Progress
import TplBackend.Delivery.Prometheus
import TplBackend.Delivery.Pump
import TplBackend.Delivery.Revalidation
import TplBackend.Delivery.Schedule
import TplBackend.Delivery.Settling
import TplBackend.Delivery.WellFormed
import TplBackend.Downstream.Route
import TplBackend.Downstream.Token
import TplBackend.Oidc.Keys
import TplBackend.Oidc.Logout
import TplBackend.Interaction.Citation
import TplBackend.Library.DotSegments
import TplBackend.Auth.Origin
import TplBackend.Messaging.Transparency
import TplBackend.Messaging.SignOfLife
