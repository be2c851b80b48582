import NocoMiddleware.Auth.BootstrapToken
import NocoMiddleware.Auth.RepeatedUpsert
import NocoMiddleware.Cache.CacheInterceptor
import NocoMiddleware.Client.ConcurrentExpiry
import NocoMiddleware.Client.RefreshLock
import NocoMiddleware.Client.SessionReplay
import NocoMiddleware.Concurrency.CacheBounds
import NocoMiddleware.Concurrency.JustInTimeProvisioning
import NocoMiddleware.Concurrency.PermissionWrites
import NocoMiddleware.Concurrency.Revocation
import NocoMiddleware.Concurrency.RoleAssignments
import NocoMiddleware.Http.Administrator
import NocoMiddleware.Http.ConcurrentRequests
import NocoMiddleware.Http.DataPaths
import NocoMiddleware.Middleware.SanitizeMiddleware
import NocoMiddleware.Runs.AuditLog
import NocoMiddleware.Runs.Deactivation
import NocoMiddleware.Runs.LegacySchemas
import NocoMiddleware.Runs.NewRoles
import NocoMiddleware.Runs.PermissionBatches
import NocoMiddleware.Runs.RoleInitialization
import NocoMiddleware.Runs.UniqueUsernames
import NocoMiddleware.Store.BaseRepository
import NocoMiddleware.Upstream.SlotQueue
