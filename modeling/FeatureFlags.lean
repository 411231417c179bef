import FeatureFlags.Client.Counting
import FeatureFlags.Client.Editable
import FeatureFlags.Client.Family
import FeatureFlags.Main
import FeatureFlags.Poller
import FeatureFlags.Publisher
import FeatureFlags.RequestedScopes
import FeatureFlags.Store.Site
import FeatureFlags.Proofs.Client.Following
import FeatureFlags.Proofs.Poller
import FeatureFlags.Proofs.Publisher
import FeatureFlags.Proofs.FeatureMap.RoundTrip
import FeatureFlags.Proofs.Publisher.Restarts
import FeatureFlags.Proofs.Publisher.Notified
import FeatureFlags.Proofs.Snapshot.Contents
import FeatureFlags.Proofs.Snapshot.DefaultScope
import FeatureFlags.Proofs.Registry.Changes
import FeatureFlags.Proofs.Client.Family
import FeatureFlags.Proofs.Decimal.Finite
import FeatureFlags.Proofs.Json.Finite
import FeatureFlags.Proofs.Publisher.Readable
import FeatureFlags.Proofs.Tree.Filed
import FeatureFlags.Proofs.Tree.Apart
import FeatureFlags.Proofs.Store.Listing
import FeatureFlags.Proofs.Server.Validators
import FeatureFlags.Proofs.Server.Responses
import FeatureFlags.Proofs.Poller.Progress
import FeatureFlags.Proofs.Registry.Neighbours
import FeatureFlags.Proofs.Registry.Deletion
import FeatureFlags.Proofs.Registry.Listing
import FeatureFlags.Proofs.Registry.ReadBack
import FeatureFlags.Proofs.Client.Updates
import FeatureFlags.Proofs.FeatureMap.Insertion
import FeatureFlags.Proofs.FeatureMap.Restored
import FeatureFlags.Proofs.Watcher.World
import FeatureFlags.Proofs.Watcher.Deliveries
import FeatureFlags.Proofs.Store.Undone
import FeatureFlags.Proofs.RequestedScopes.Distinct
import FeatureFlags.Proofs.Client.Editable
import FeatureFlags.Proofs.Rollout
import FeatureFlags.Proofs.Client.Counting
import FeatureFlags.Proofs.FeatureMap.Numbers
import FeatureFlags.Proofs.FeatureMap.Spelling
import FeatureFlags.Proofs.Watcher.Refusals
